import PegKit.Proofs.Tree.Layout

/-! # Sound trees

The invariant of trees, and that the edits of links keep it.

* `Tree.Sound`: the children are laid out, the parents go up to a root, and no node has both a value
  and a child.
* `exists_ranked_of_edges`: a new edge closes no loop if it starts outside of what it moves.
* `Sound.mem_ancestors_iff`: the walk to the root meets exactly the nodes above another.
-/

namespace PegKit.Tree

/-! ## Above and below -/

/-- The node `x` is `a` or lies below it. -/
inductive Under (t : Tree) : (x a : NodeId) → Prop
  | refl (x : NodeId) : Under t x x
  | step {x p a : NodeId} (hp : (t.node x).parent = some p) (h : Under t p a) : Under t x a

/-- The last step on the way up to a node above leaves one of its children. -/
theorem Under.exists_below {t : Tree} {x a : NodeId} (hu : t.Under x a) (hne : x ≠ a) :
    ∃ y, t.Under x y ∧ (t.node y).parent = some a := by
  induction hu with
  | refl => exact absurd rfl hne
  | @step x q a hq _ ih =>
    by_cases hqa : q = a
    · exact ⟨x, .refl x, hqa ▸ hq⟩
    · rcases ih hqa with ⟨y, hy, hp⟩
      exact ⟨y, .step hq hy, hp⟩

/-- What a walk along the parents meets is above its start. -/
theorem under_of_mem_ancestors {t : Tree} {x a : NodeId} (ha : a ∈ x :: t.ancestors x) :
    t.Under x a := by
  have hup : ∀ fuel y, a ∈ t.follow Node.parent fuel (t.node y).parent → t.Under y a := by
    intro fuel
    induction fuel with
    | zero => exact fun y hy => absurd hy List.not_mem_nil
    | succ fuel ih =>
      intro y hy
      cases hq : (t.node y).parent with
      | none =>
        rw [hq] at hy
        exact absurd hy List.not_mem_nil
      | some q =>
        rw [hq, follow] at hy
        rcases List.mem_cons.mp hy with rfl | hy
        · exact .step hq (.refl a)
        · exact .step hq (ih q hy)
  rcases List.mem_cons.mp ha with rfl | ha
  · exact .refl a
  · exact hup t.size x ha

/-- Parents have a lower rank than their children. -/
def Ranked (t : Tree) (rank : NodeId → Nat) : Prop :=
  ∀ x p, (t.node x).parent = some p → rank p < rank x

section Ranked

variable {t u : Tree} {rank : NodeId → Nat}

theorem Under.rank_le (hr : t.Ranked rank) {x a : NodeId} (h : t.Under x a) : rank a ≤ rank x := by
  induction h with
  | refl => exact Nat.le_refl _
  | step hp _ ih => exact Nat.le_trans ih (Nat.le_of_lt (hr _ _ hp))

/-- Ranked nodes are not above themselves. -/
theorem Ranked.not_under (hr : t.Ranked rank) {x p : NodeId} (hp : (t.node x).parent = some p) :
    ¬ t.Under p x :=
  fun h => Nat.lt_irrefl _ (Nat.lt_of_lt_of_le (hr x p hp) (h.rank_le hr))

/-- Some nodes get the parent `p`, and no other gets a new one. That closes no loop if `p` is not
below any of them. -/
theorem exists_ranked_of_edges (hr : t.Ranked rank) (moved : NodeId → Prop) (p : NodeId)
    (hm : ∀ c, moved c → ¬ t.Under p c)
    (he : ∀ x q, (u.node x).parent = some q → (t.node x).parent = some q ∨ moved x ∧ q = p) :
    ∃ rank, u.Ranked rank := by
  classical
  -- what moves with its subtree is lifted above `p`
  let lifted (x : NodeId) : Prop := ∃ c, moved c ∧ t.Under x c
  refine ⟨fun x => rank x + if lifted x then rank p + 1 else 0, ?_⟩
  intro x q hq
  rcases he x q hq with hold | ⟨hx, rfl⟩
  · have hlt := hr x q hold
    -- an old edge is lifted as a whole, or at its lower end, or not at all
    by_cases hl : lifted q
    · obtain ⟨c, hc, hu⟩ := hl
      have hl' : lifted x := ⟨c, hc, .step hold hu⟩
      simp only [if_pos (show lifted q from ⟨c, hc, hu⟩), if_pos hl']
      omega
    · simp only [if_neg hl]
      omega
  · have hp : ¬ lifted q := fun ⟨c, hc, hu⟩ => hm c hc hu
    have hx' : lifted x := ⟨x, hx, .refl x⟩
    simp only [if_neg hp, if_pos hx']
    omega

/-- Taking parents away closes no loop. -/
theorem Ranked.of_edges (hr : t.Ranked rank)
    (he : ∀ x q, (u.node x).parent = some q → (t.node x).parent = some q) : u.Ranked rank :=
  fun x q hq => hr x q (he x q hq)

end Ranked

/-! ## Soundness -/

/-- The invariant of trees. -/
structure Sound (t : Tree) : Prop where
  laidOut : t.LaidOut t.children
  ranked : ∃ rank, t.Ranked rank
  /-- A node with a value has no child. -/
  plain : ∀ x, (t.node x).value ≠ "" → t.children x = []

theorem Sound.of_laidOut {t : Tree} {kids : NodeId → List NodeId} (h : t.LaidOut kids)
    (hr : ∃ rank, t.Ranked rank) (hv : ∀ x, (t.node x).value ≠ "" → kids x = []) : t.Sound := by
  have hk : t.children = kids := funext h.children_eq
  exact ⟨hk ▸ h, hr, fun x hx => (h.children_eq x).trans (hv x hx)⟩

namespace Sound

variable {t : Tree} {x c p : NodeId}

theorem parent_lt (h : t.Sound) {p : NodeId} (hp : (t.node x).parent = some p) :
    x < t.size ∧ p < t.size := by
  by_cases hx : x < t.size
  · exact ⟨hx, h.laidOut.parent_lt hx hp⟩
  · rw [node_of_le (Nat.le_of_not_lt hx)] at hp
    cases hp

theorem mem_children_iff (h : t.Sound) :
    c ∈ t.children p ↔ (t.node c).parent = some p :=
  h.laidOut.mem_iff.trans (and_iff_right_of_imp fun hp => (h.parent_lt hp).1)

/-- A parent is not below its child. -/
theorem acyclic (h : t.Sound) (hp : (t.node x).parent = some p) : ¬ t.Under p x := by
  rcases h.ranked with ⟨rank, hr⟩
  exact hr.not_under hp

/-- Nothing at or below a child is the parent. -/
theorem ne_of_under_child (h : t.Sound) (hc : c ∈ t.children p) (hx : t.Under x c) : x ≠ p := by
  rintro rfl
  exact h.acyclic (h.mem_children_iff.mp hc) hx

/-! ## Walking up -/

/-- Following the parents of a node meets everything above it once. -/
theorem exists_chain (h : t.Sound) {rank : NodeId → Nat} (hr : t.Ranked rank) (x : NodeId) :
    ∃ ids, t.Chain Node.parent (t.node x).parent ids ∧ ids.Nodup ∧
      (∀ y ∈ ids, y < t.size ∧ rank y < rank x) ∧ ∀ a, t.Under x a → a = x ∨ a ∈ ids := by
  generalize hk : rank x = k
  -- on the rank, which falls with every step up
  induction k using Nat.strongRecOn generalizing x with
  | ind k ih =>
    subst hk
    cases hp : (t.node x).parent with
    | none =>
      refine ⟨[], rfl, List.nodup_nil, nofun, ?_⟩
      intro a ha
      cases ha with
      | refl => exact Or.inl rfl
      | step hp' _ =>
        rw [hp] at hp'
        cases hp'
    | some p =>
      have hlt := hr x p hp
      rcases ih (rank p) hlt p rfl with ⟨ids, hc, hn, hlow, hall⟩
      refine ⟨p :: ids, ⟨rfl, hc⟩, List.nodup_cons.mpr ⟨?_, hn⟩, ?_, ?_⟩
      · intro hmem
        exact Nat.lt_irrefl _ (hlow p hmem).2
      · intro y hy
        rcases List.mem_cons.mp hy with rfl | hy
        · exact ⟨(h.parent_lt hp).2, hlt⟩
        · exact ⟨(hlow y hy).1, Nat.lt_trans (hlow y hy).2 hlt⟩
      · intro a ha
        cases ha with
        | refl => exact Or.inl rfl
        | step hp' hu =>
          rw [hp] at hp'
          cases hp'
          refine Or.inr (List.mem_cons.mpr ?_)
          exact hall a hu

/-- The walk to the root meets every node above. -/
theorem mem_ancestors_of_under (h : t.Sound) {a : NodeId} (hu : t.Under x a) :
    a ∈ x :: t.ancestors x := by
  rcases h.ranked with ⟨rank, hr⟩
  rcases h.exists_chain hr x with ⟨ids, hc, hn, hlow, hall⟩
  have hanc : t.ancestors x = ids :=
    follow_eq_of_chain hc (length_le_of_nodup hn fun y hy => (hlow y hy).1)
  rw [hanc]
  exact List.mem_cons.mpr (hall a hu)

/-- The walk to the root meets a node exactly if that is above. -/
theorem mem_ancestors_iff (h : t.Sound) {a : NodeId} :
    a ∈ x :: t.ancestors x ↔ t.Under x a :=
  ⟨under_of_mem_ancestors, h.mem_ancestors_of_under⟩

/-! ## Edits of links -/

theorem last_lt (h : t.Sound) (hp : p < t.size) {l : NodeId} (hl : (t.node p).last = some l) :
    l < t.size :=
  h.laidOut.lt_of_mem (h.laidOut.last_mem hp hl)

/-- Kinds and values are no links. A value may come only where there is no child. -/
theorem of_sameLinks {u : Tree} (h : t.Sound) (hs : u.SameLinks t)
    (hv : ∀ x, (u.node x).value ≠ "" → t.children x = []) : u.Sound := by
  rcases h.ranked with ⟨rank, hr⟩
  refine .of_laidOut (h.laidOut.of_sameLinks hs) ⟨rank, hr.of_edges ?_⟩ hv
  intro x q hq
  rwa [(hs.node_eq x).1] at hq

theorem makeRoot (h : t.Sound) (kind : Kind) (value : String) :
    (t.makeRoot kind value).2.Sound := by
  rcases h.ranked with ⟨rank, hr⟩
  have hnode := @node_makeRoot t kind value
  refine .of_laidOut (h.laidOut.makeRoot kind value) ⟨rank, hr.of_edges fun x q hq => ?_⟩
    fun x hx => ?_
  · rw [hnode] at hq
    split at hq
    · cases hq
    · exact hq
  · rw [hnode] at hx
    split at hx
    · next hxs => exact h.laidOut.dead x (Nat.le_of_eq hxs.symm)
    · exact h.plain x hx

/-- A root may be linked under a node that has no value and is not below the root. -/
theorem linkUnder (h : t.Sound) (hp : p < t.size) (hc : c < t.size)
    (hroot : (t.node c).parent = none) (hloop : ¬ t.Under p c) (hv : (t.node p).value = "") :
    (t.linkUnder p c).Sound := by
  rcases h.ranked with ⟨rank, hr⟩
  have hnode := node_linkUnder hp hc fun l hl => h.last_lt hp hl
  refine .of_laidOut (h.laidOut.linkUnder hp hc hroot) ?_ ?_
  -- the one new edge starts at the child
  · refine exists_ranked_of_edges hr (fun x => x = c) p ?_ ?_
    · rintro x rfl
      exact hloop
    · intro x q hq
      rw [hnode] at hq
      by_cases hcx : c = x
      · exact Or.inr ⟨hcx.symm, by simpa [hcx, eq_comm] using hq⟩
      · exact Or.inl (by simpa [hcx] using hq)
  · intro x hx
    rw [hnode] at hx
    by_cases hxp : x = p
    · subst hxp
      exact absurd hv hx
    · rw [if_neg hxp]
      exact h.plain x hx

/-- A node that is unlinked becomes a root, and the others keep their parents. -/
theorem parent_unlink (h : t.Sound) (hc : c < t.size) (x : NodeId) :
    ((t.unlink c).node x).parent = if c = x then none else (t.node x).parent := by
  rw [node_unlink hc (fun p hp => h.laidOut.parent_lt hc hp) (h.laidOut.neighbours_lt hc).1
    (h.laidOut.neighbours_lt hc).2]

theorem value_unlink (h : t.Sound) (hc : c < t.size) (x : NodeId) :
    ((t.unlink c).node x).value = (t.node x).value := by
  rw [node_unlink hc (fun p hp => h.laidOut.parent_lt hc hp) (h.laidOut.neighbours_lt hc).1
    (h.laidOut.neighbours_lt hc).2]

theorem unlink (h : t.Sound) (hc : c < t.size) : (t.unlink c).Sound := by
  rcases h.ranked with ⟨rank, hr⟩
  refine .of_laidOut (h.laidOut.unlink hc) ⟨rank, hr.of_edges ?_⟩ ?_
  · intro x q hq
    rw [h.parent_unlink hc] at hq
    split at hq
    · cases hq
    · exact hq
  · intro x hx
    rw [h.value_unlink hc] at hx
    rw [h.plain x hx]
    rfl

/-- The children of a donor may go to a node that has no value and is below none of them. -/
theorem relinkChildren (h : t.Sound) {r d : NodeId} (hr : r < t.size) (hd : d < t.size)
    (hne : r ≠ d) (hloop : ∀ c ∈ t.children d, ¬ t.Under r c)
    (hv : (t.node r).value ≠ "" → t.children d = []) : (t.relinkChildren r d).Sound := by
  rcases h.ranked with ⟨rank, hrank⟩
  cases hf : (t.node d).first with
  | none =>
    rw [relinkChildren_of_none hf]
    exact h
  | some f =>
    have hfd : f ∈ t.children d := by
      rw [h.laidOut.first_eq] at hf
      exact List.mem_of_head? hf
    have hnode := node_relinkChildren hne hr hd hf (h.laidOut.lt_of_mem hfd)
      (fun l hl => h.last_lt hr hl) (fun c hc => h.laidOut.lt_of_mem hc)
    refine .of_laidOut (h.laidOut.relinkChildren hr hd hne) ?_ ?_
    -- the new edges start at the children that move, and all of them lead to the receiver
    · apply exists_ranked_of_edges hrank (· ∈ t.children d) r hloop
      intro x q hq
      rw [hnode] at hq
      by_cases hx : x ∈ t.children d
      · exact Or.inr ⟨hx, by simpa [hx, eq_comm] using hq⟩
      · exact Or.inl (by simpa [hx] using hq)
    · intro x hx
      rw [hnode] at hx
      by_cases hxr : x = r
      · subst hxr
        rw [if_pos rfl, h.plain x hx, hv hx]
        rfl
      · rw [if_neg hxr, h.plain x hx]
        split <;> rfl

/-! ## Unlinking several nodes -/

/-- Nodes that are unlinked one after the other are roots in the end, and the others keep their
parents. -/
theorem foldl_unlink (h : t.Sound) (ids : List NodeId) (hids : ∀ id ∈ ids, id < t.size) :
    (ids.foldl Tree.unlink t).Sound ∧ (ids.foldl Tree.unlink t).size = t.size ∧
      ∀ x, ((ids.foldl Tree.unlink t).node x).parent =
          (if x ∈ ids then none else (t.node x).parent) ∧
        ((ids.foldl Tree.unlink t).node x).value = (t.node x).value := by
  induction ids generalizing t with
  | nil => exact ⟨h, rfl, fun x => ⟨rfl, rfl⟩⟩
  | cons id ids ih =>
    have hid := hids id List.mem_cons_self
    obtain ⟨hs, hsize, hnode⟩ := ih (h.unlink hid) fun i hi => by
      rw [size_unlink]
      exact hids i (List.mem_cons_of_mem id hi)
    refine ⟨hs, hsize.trans size_unlink, ?_⟩
    intro x
    rw [List.foldl_cons, (hnode x).1, (hnode x).2, h.parent_unlink hid, h.value_unlink hid]
    refine ⟨?_, rfl⟩
    by_cases hx : id = x
    · simp [hx]
    · simp [hx, Ne.symm hx]

/-- A node whose children are unlinked has none. -/
theorem unlinkChildren (h : t.Sound) (x : NodeId) :
    (t.unlinkChildren x).Sound ∧ (t.unlinkChildren x).size = t.size ∧
      (t.unlinkChildren x).children x = [] ∧
      ∀ y, ((t.unlinkChildren x).node y).parent =
          (if y ∈ t.children x then none else (t.node y).parent) ∧
        ((t.unlinkChildren x).node y).value = (t.node y).value := by
  obtain ⟨hs, hsize, hnode⟩ := h.foldl_unlink (t.children x)
    fun c hc => h.laidOut.lt_of_mem hc
  refine ⟨hs, hsize, List.eq_nil_iff_forall_not_mem.mpr ?_, hnode⟩
  intro c hc
  have hp := hs.mem_children_iff.mp hc
  rw [(hnode c).1] at hp
  split at hp
  · cases hp
  · next hno => exact hno (h.mem_children_iff.mpr hp)

end Sound

end PegKit.Tree
