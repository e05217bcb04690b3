import PegKit.Proofs.Tree.Sound

/-! # Checked edits

What the checked edits come to for nodes that the tree has, and that each keeps a tree sound: a
refusal changes nothing, and what is not refused meets the conditions of the edit of links behind
it.

* `setValue_eq`, `attach_eq`, `adopt_eq` and their like: an edit as its checks and its change.
* `Sound.attach`, `Sound.adopt` and their like: the change is a sound one.
-/

namespace PegKit.Tree

variable {t : Tree} {id p c r d : NodeId}

/-! ## Checks and changes -/

theorem requireBranch_eq (hid : id < t.size) : t.requireBranch id =
    if (t.node id).value ≠ "" then .error (.childUnderLeaf id) else .ok () := by
  rw [requireBranch, lookup_of_lt hid]
  rfl

theorem setKind_eq (hid : id < t.size) (kind : Kind) :
    t.setKind id kind = .ok (t.modify id fun n => { n with kind }) := by
  rw [setKind, lookup_of_lt hid]
  rfl

theorem setValue_eq (hid : id < t.size) (value : String) : t.setValue id value =
    if (t.node id).count > 0 ∧ value ≠ "" then .error (.valueOnBranch id)
    else .ok (t.modify id fun n => { n with value }) := by
  rw [setValue, lookup_of_lt hid]
  rfl

theorem reset_eq (hid : id < t.size) :
    t.reset id = .ok ((t.unlinkChildren id).modify id fun n =>
      { n with kind := untyped, value := "" }) := by
  rw [reset, lookup_of_lt hid]
  rfl

theorem addChild_eq (hp : p < t.size) (kind : Kind) (value : String) : t.addChild p kind value =
    if (t.node p).value ≠ "" then .error (.childUnderLeaf p)
    else .ok (t.size, (t.makeRoot kind value).2.linkUnder p t.size) := by
  rw [addChild, requireBranch_eq hp]
  split <;> rfl

theorem attach_eq (hp : p < t.size) (hc : c < t.size) : t.attach p c =
    if (t.node p).value ≠ "" then .error (.childUnderLeaf p)
    else if (t.node c).parent.isSome then .error (.alreadyAttached c)
    else if c ∈ p :: t.ancestors p then .error (.cycle p c)
    else .ok (t.linkUnder p c) := by
  rw [attach, requireBranch_eq hp, lookup_of_lt hc]
  by_cases hv : (t.node p).value ≠ ""
  · rw [if_pos hv, if_pos hv]
    rfl
  · rw [if_neg hv, if_neg hv]
    rfl

theorem detach_eq (hid : id < t.size) : t.detach id = .ok (t.unlink id) := by
  rw [detach, lookup_of_lt hid]
  rfl

theorem adopt_eq (hr : r < t.size) (hd : d < t.size) : t.adopt r d =
    if r = d then .ok t
    else if (t.node d).count = 0 then .ok t
    else if (t.node r).value ≠ "" then .error (.childUnderLeaf r)
    else match t.childAbove? d r with
      | some up => .error (.cycle r up)
      | none => .ok (t.relinkChildren r d) := by
  rw [adopt, requireBranch_eq hr, lookup_of_lt hd]
  by_cases hne : r = d
  · rw [if_pos hne, if_pos hne]
    rfl
  · rw [if_neg hne, if_neg hne]
    by_cases h0 : (t.node d).count = 0
    · rw [if_pos h0]
      show (if (t.node d).count = 0 then _ else _ : Except TreeError Tree) = _
      rw [if_pos h0]
      rfl
    · rw [if_neg h0]
      show (if (t.node d).count = 0 then _ else _ : Except TreeError Tree) = _
      rw [if_neg h0]
      by_cases hv : (t.node r).value ≠ ""
      · rw [if_pos hv, if_pos hv]
        rfl
      · rw [if_neg hv, if_neg hv]
        show (match t.childAbove? d r with
          | some up => throw (.cycle r up)
          | none => pure (t.relinkChildren r d) : Except TreeError Tree) = _
        cases t.childAbove? d r <;> rfl

/-! ## Kinds and values -/

theorem sameLinks_modify (hid : id < t.size) {f : Node → Node}
    (hf : ∀ n, f n = { n with kind := (f n).kind, value := (f n).value }) :
    (t.modify id f).SameLinks t := by
  refine ⟨size_modify, ?_⟩
  intro j
  rw [node_modify hid]
  split
  · rw [hf]
    exact ⟨rfl, rfl, rfl, rfl, rfl, rfl⟩
  · exact ⟨rfl, rfl, rfl, rfl, rfl, rfl⟩

namespace Sound

theorem count_eq (h : t.Sound) (hid : id < t.size) : (t.node id).count = (t.children id).length :=
  (h.laidOut.ends id hid).2.2

/-- A node without children may have any value, and every node the empty one. -/
theorem modify (h : t.Sound) (hid : id < t.size) {f : Node → Node}
    (hf : ∀ n, f n = { n with kind := (f n).kind, value := (f n).value })
    (hv : (f (t.node id)).value ≠ "" → t.children id = []) : (t.modify id f).Sound := by
  apply h.of_sameLinks (sameLinks_modify hid hf)
  intro x hx
  rw [node_modify hid] at hx
  by_cases hxi : id = x
  · subst hxi
    rw [if_pos rfl] at hx
    exact hv hx
  · rw [if_neg hxi] at hx
    exact h.plain x hx

theorem setKind (h : t.Sound) (hid : id < t.size) {kind : Kind} {u : Tree}
    (he : t.setKind id kind = .ok u) : u.Sound := by
  rw [setKind_eq hid] at he
  cases he
  exact h.modify hid (fun _ => rfl) (h.plain id)

theorem setValue (h : t.Sound) (hid : id < t.size) {value : String} {u : Tree}
    (he : t.setValue id value = .ok u) : u.Sound := by
  rw [setValue_eq hid] at he
  split at he
  · cases he
  · next hno =>
    cases he
    refine h.modify hid (fun _ => rfl) ?_
    intro hv
    -- not refused, so a value comes only where no children are counted
    have h0 : (t.node id).count = 0 := Nat.eq_zero_of_not_pos fun hpos => hno ⟨hpos, hv⟩
    rw [h.count_eq hid] at h0
    exact List.length_eq_zero_iff.mp h0

theorem reset (h : t.Sound) (hid : id < t.size) {u : Tree} (he : t.reset id = .ok u) :
    u.Sound := by
  rw [reset_eq hid] at he
  cases he
  rcases h.unlinkChildren id with ⟨hs, hsize, _⟩
  rw [← hsize] at hid
  exact hs.modify hid (fun _ => rfl) fun hv => absurd rfl hv

/-! ## Children -/

/-- A new node under a node without a value. -/
theorem linkNew (h : t.Sound) (hp : p < t.size) (hv : (t.node p).value = "") (kind : Kind)
    (value : String) : ((t.makeRoot kind value).2.linkUnder p t.size).Sound := by
  have hs := h.makeRoot kind value
  have hnode := @node_makeRoot t kind value
  have hne : p ≠ t.size := Nat.ne_of_lt hp
  refine hs.linkUnder ?_ ?_ ?_ ?_ ?_
  · exact size_makeRoot ▸ Nat.lt_succ_of_lt hp
  · exact size_makeRoot ▸ Nat.lt_succ_self t.size
  · rw [hnode, if_pos rfl]
  · -- nothing is below a node that has just been made
    intro hu
    rcases hu.exists_below hne with ⟨y, _, hy⟩
    rw [hnode] at hy
    split at hy
    · cases hy
    · exact absurd (h.parent_lt hy).2 (Nat.lt_irrefl _)
  · rw [hnode, if_neg hne]
    exact hv

theorem addChild (h : t.Sound) (hp : p < t.size) {kind : Kind} {value : String} {u : Tree}
    (he : t.addChild p kind value = .ok (id, u)) : u.Sound := by
  rw [addChild_eq hp] at he
  split at he
  · cases he
  · next hv =>
    cases he
    exact h.linkNew hp (Decidable.of_not_not hv) kind value

theorem attach (h : t.Sound) (hp : p < t.size) (hc : c < t.size) {u : Tree}
    (he : t.attach p c = .ok u) : u.Sound := by
  rw [attach_eq hp hc] at he
  split at he
  · cases he
  next hv =>
  split at he
  · cases he
  next hroot =>
  split at he
  · cases he
  next hloop =>
  cases he
  refine h.linkUnder hp hc ?_ (fun hu => hloop (h.mem_ancestors_of_under hu))
    (Decidable.of_not_not hv)
  exact Option.not_isSome_iff_eq_none.mp hroot

theorem detach (h : t.Sound) (hid : id < t.size) {u : Tree} (he : t.detach id = .ok u) :
    u.Sound := by
  rw [detach_eq hid] at he
  cases he
  exact h.unlink hid

/-- The check of an adoption looks at the children of the donor above the receiver. -/
theorem adopt (h : t.Sound) (hr : r < t.size) (hd : d < t.size) {u : Tree}
    (he : t.adopt r d = .ok u) : u.Sound := by
  rw [adopt_eq hr hd] at he
  split at he
  · cases he
    exact h
  next hne =>
  split at he
  · cases he
    exact h
  split at he
  · cases he
  next hv =>
  split at he
  · cases he
  next hnone =>
  cases he
  -- a child that the receiver is below would be on its way up, where the check looks
  refine h.relinkChildren hr hd hne ?_ fun hv' => absurd hv' hv
  intro c hc hu
  have hup := List.find?_eq_none.mp hnone c (h.mem_ancestors_of_under hu)
  exact hup (decide_eq_true (h.mem_children_iff.mp hc))

end Sound

end PegKit.Tree
