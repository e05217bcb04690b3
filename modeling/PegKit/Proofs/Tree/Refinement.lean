import PegKit.Proofs.Tree.Extension
import PegKit.Proofs.Tree.Restriction
import PegKit.Proofs.Tree.WellFormed

/-! # Trees as ordered forests

What the edits of a tree do, said of kinds, values, parents and lists of children alone.

* `Forest` is a tree without its links, and `Tree.forest` the forest that a tree stands for.
* `Sound.forest_linkUnder`, `Sound.forest_unlink` and `Sound.forest_relinkChildren`: an edit of
  links is one of lists.
* `Edit.forest_run` is the step: an edit that is not refused does to the forest what its name says,
  and `Edit.forest_runAll` the same for a run of edits.
* `WellFormed.edits_refine_forest`: the edits one by one.
-/

namespace PegKit

/-! ## Ordered forests -/

/-- A node of a forest: what it holds, where it hangs and what hangs under it, in order. -/
@[ext]
structure Entry where
  kind : Kind
  value : String
  parent : Option NodeId
  children : List NodeId
deriving DecidableEq, Repr

/-- Rooted, ordered trees with the nodes below `size`. -/
@[ext]
structure Forest where
  size : Nat
  entry : NodeId → Entry

namespace Forest

/-- A leaf is made that stands alone. -/
def makeRoot (f : Forest) (kind : Kind) (value : String) : Forest where
  size := f.size + 1
  entry x := if x = f.size then ⟨kind, value, none, []⟩ else f.entry x

/-- The node `c` is put behind the children of `p`. -/
def append (f : Forest) (p c : NodeId) : Forest where
  size := f.size
  entry x := { f.entry x with
    parent := if x = c then some p else (f.entry x).parent
    children := if x = p then (f.entry p).children ++ [c] else (f.entry x).children }

/-- A leaf is made and put behind the children of `p`. -/
def add (f : Forest) (p : NodeId) (kind : Kind) (value : String) : Forest :=
  (f.makeRoot kind value).append p f.size

/-- The node `c` leaves the list of its parent and becomes a root, with its own children. -/
def cut (f : Forest) (c : NodeId) : Forest where
  size := f.size
  entry x := { f.entry x with
    parent := if x = c then none else (f.entry x).parent
    children := if (f.entry c).parent = some x then (f.entry x).children.erase c
      else (f.entry x).children }

/-- The children of `d` are put behind those of `r`, in their order. -/
def take (f : Forest) (r d : NodeId) : Forest where
  size := f.size
  entry x := { f.entry x with
    parent := if x ∈ (f.entry d).children then some r else (f.entry x).parent
    children := if x = r then (f.entry r).children ++ (f.entry d).children
      else if x = d then [] else (f.entry x).children }

/-- The node `i` stays where it is and becomes untyped and empty, and its children become roots. -/
def init (f : Forest) (i : NodeId) : Forest where
  size := f.size
  entry x :=
    { kind := if x = i then untyped else (f.entry x).kind
      value := if x = i then "" else (f.entry x).value
      parent := if x ∈ (f.entry i).children then none else (f.entry x).parent
      children := if x = i then [] else (f.entry x).children }

end Forest

namespace Tree

/-- What the links of a tree stand for. -/
def forest (t : Tree) : Forest where
  size := t.size
  entry x := ⟨(t.node x).kind, (t.node x).value, (t.node x).parent, t.children x⟩

variable {t u : Tree} {p c r d x id : NodeId}

/-- A tree stands for a forest that has the same nodes. -/
theorem forest_eq {f : Forest} (hs : t.size = f.size)
    (hk : ∀ x, (t.node x).kind = (f.entry x).kind ∧ (t.node x).value = (f.entry x).value)
    (hp : ∀ x, (t.node x).parent = (f.entry x).parent)
    (hc : ∀ x, t.children x = (f.entry x).children) : t.forest = f := by
  apply Forest.ext hs
  funext x
  exact Entry.ext (hk x).1 (hk x).2 (hp x) (hc x)

/-! ## Edits of links -/

namespace Sound

theorem forest_makeRoot (h : t.Sound) (kind : Kind) (value : String) :
    (t.makeRoot kind value).2.forest = t.forest.makeRoot kind value := by
  have hentry : ∀ x, ((t.forest.makeRoot kind value).entry x) =
      if x = t.size then ⟨kind, value, none, []⟩ else t.forest.entry x := fun _ => rfl
  refine forest_eq size_makeRoot ?_ ?_ ?_
  · intro x
    rw [node_makeRoot, hentry]
    split
    · exact ⟨rfl, rfl⟩
    · exact ⟨rfl, rfl⟩
  · intro x
    rw [node_makeRoot, hentry]
    split
    · rfl
    · rfl
  · intro x
    rw [(h.laidOut.makeRoot kind value).children_eq, hentry]
    split
    · next hx => exact h.laidOut.dead x (Nat.le_of_eq hx.symm)
    · rfl

theorem forest_linkUnder (h : t.Sound) (hp : p < t.size) (hc : c < t.size)
    (hroot : (t.node c).parent = none) : (t.linkUnder p c).forest = t.forest.append p c := by
  have hnode := node_linkUnder hp hc fun l hl => h.last_lt hp hl
  refine forest_eq size_linkUnder ?_ ?_ ?_
  · intro x
    rw [hnode]
    exact ⟨rfl, rfl⟩
  · intro x
    rw [hnode]
    unfold Forest.append
    simp only [eq_comm]
    rfl
  · intro x
    rw [(h.laidOut.linkUnder hp hc hroot).children_eq]
    rfl

/-- Only the list of the parent has the node that is unlinked. -/
theorem forest_unlink (h : t.Sound) (hc : c < t.size) :
    (t.unlink c).forest = t.forest.cut c := by
  refine forest_eq size_unlink ?_ ?_ ?_
  · intro x
    rw [h.kind_unlink hc, h.value_unlink hc]
    exact ⟨rfl, rfl⟩
  · intro x
    rw [h.parent_unlink hc]
    unfold Forest.cut
    simp only [eq_comm]
    rfl
  · intro x
    rw [h.children_unlink hc]
    unfold Forest.cut
    by_cases hx : (t.node c).parent = some x
    · exact (if_pos hx).symm
    · rw [List.erase_of_not_mem fun hmem => hx (h.mem_children_iff.mp hmem)]
      exact (if_neg hx).symm

theorem forest_relinkChildren (h : t.Sound) (hr : r < t.size) (hd : d < t.size) (hne : r ≠ d) :
    (t.relinkChildren r d).forest = t.forest.take r d := by
  have hkids := (h.laidOut.relinkChildren hr hd hne).children_eq
  cases hf : (t.node d).first with
  | none =>
    -- without children of the donor nothing is done, and nothing is to be done
    have hnil : t.children d = [] := by
      rw [h.laidOut.first_eq] at hf
      exact List.head?_eq_none_iff.mp hf
    rw [relinkChildren_of_none hf] at hkids ⊢
    refine forest_eq rfl (fun _ => ⟨rfl, rfl⟩) ?_ hkids
    intro x
    have hx : x ∉ t.children d := by
      rw [hnil]
      exact List.not_mem_nil
    exact (if_neg hx).symm
  | some f =>
    have hfd : f ∈ t.children d := by
      rw [h.laidOut.first_eq] at hf
      exact List.mem_of_head? hf
    have hnode := node_relinkChildren hne hr hd hf (h.laidOut.lt_of_mem hfd)
      (fun l hl => h.last_lt hr hl) fun c hc => h.laidOut.lt_of_mem hc
    refine forest_eq size_relinkChildren ?_ ?_ hkids
    · intro x
      rw [hnode]
      exact ⟨rfl, rfl⟩
    · intro x
      rw [hnode]
      rfl

/-- Only the list of the node has what is unlinked. -/
theorem children_unlinkChildren (h : t.Sound) (id x : NodeId) :
    (t.unlinkChildren id).children x = if x = id then [] else t.children x := by
  have hlt : ∀ c ∈ t.children id, c < t.size := fun c hc => h.laidOut.lt_of_mem hc
  by_cases hx : x = id
  · rw [hx, if_pos rfl]
    exact (h.unlinkChildren id).2.2.1
  · rw [if_neg hx, Tree.unlinkChildren, (h.children_foldl_unlink _ hlt x).1,
      List.Nodup.sdiff_eq_filter (h.laidOut.nodup x), List.filter_eq_self]
    intro y hy
    exact decide_eq_true fun hmem => hx (h.laidOut.eq_of_mem hy hmem)

theorem kind_unlinkChildren (h : t.Sound) (id x : NodeId) :
    ((t.unlinkChildren id).node x).kind = (t.node x).kind :=
  (h.children_foldl_unlink _ (fun _ hc => h.laidOut.lt_of_mem hc) x).2

theorem forest_reset (h : t.Sound) (hid : id < t.size) (he : t.reset id = .ok u) :
    u.forest = t.forest.init id := by
  rw [reset_eq hid] at he
  cases he
  have hkids := h.children_unlinkChildren id
  have hkind := h.kind_unlinkChildren id
  rcases h.unlinkChildren id with ⟨hs, hsize, _, hnode⟩
  generalize t.unlinkChildren id = v at hkids hkind hs hsize hnode ⊢
  have hid' : id < v.size := hsize ▸ hid
  have hlinks := sameLinks_modify hid' (f := fun n => { n with kind := untyped, value := "" })
    fun _ => rfl
  refine forest_eq (hlinks.size_eq.trans hsize) ?_ ?_ ?_
  · intro x
    rw [node_modify hid']
    unfold Forest.init
    by_cases hx : id = x
    · rw [if_pos hx]
      exact ⟨(if_pos hx.symm).symm, (if_pos hx.symm).symm⟩
    · rw [if_neg hx, hkind, (hnode x).2]
      exact ⟨(if_neg (Ne.symm hx)).symm, (if_neg (Ne.symm hx)).symm⟩
  · intro x
    rw [(hlinks.node_eq x).1, (hnode x).1]
    rfl
  · intro x
    rw [(hs.laidOut.of_sameLinks hlinks).children_eq, hkids]
    rfl

/-! ## Checked edits -/

theorem forest_addChild (h : t.Sound) (hp : p < t.size) {kind : Kind} {value : String}
    (he : t.addChild p kind value = .ok (id, u)) :
    id = t.size ∧ u.forest = t.forest.add p kind value := by
  rw [addChild_eq hp] at he
  split at he
  · cases he
  cases he
  have hp' : p < (t.makeRoot kind value).2.size := size_makeRoot ▸ Nat.lt_succ_of_lt hp
  have hc' : t.size < (t.makeRoot kind value).2.size := size_makeRoot ▸ Nat.lt_succ_self t.size
  have hroot : ((t.makeRoot kind value).2.node t.size).parent = none := by
    rw [node_makeRoot, if_pos rfl]
  refine ⟨rfl, ?_⟩
  rw [(h.makeRoot kind value).forest_linkUnder hp' hc' hroot, h.forest_makeRoot]
  rfl

theorem forest_attach (h : t.Sound) (he : t.attach p c = .ok u) :
    u.forest = t.forest.append p c := by
  rcases lt_of_attach he with ⟨hp, hc⟩
  rcases attach_eq_ok he with ⟨hroot, rfl⟩
  exact h.forest_linkUnder hp hc hroot

theorem forest_detach (h : t.Sound) (hc : c < t.size) (he : t.detach c = .ok u) :
    u.forest = t.forest.cut c := by
  rw [detach_eq hc] at he
  cases he
  exact h.forest_unlink hc

/-- A donor without children is not looked at any further, and has nothing to give. -/
theorem forest_adopt (h : t.Sound) (hr : r < t.size) (hd : d < t.size) (hne : r ≠ d)
    (he : t.adopt r d = .ok u) : u.forest = t.forest.take r d := by
  rw [adopt_eq hr hd, if_neg hne] at he
  split at he
  · next h0 =>
    cases he
    have hnil : t.children d = [] := List.length_eq_zero_iff.mp (h.count_eq hd ▸ h0)
    have hfirst : (t.node d).first = none := by
      rw [h.laidOut.first_eq, hnil]
      rfl
    rw [← h.forest_relinkChildren hr hd hne, relinkChildren_of_none hfirst]
  split at he
  · cases he
  split at he
  · cases he
  cases he
  exact h.forest_relinkChildren hr hd hne

end Sound

/-! ## Runs of edits -/

/-- An edit that moves or makes nodes, with its arguments. -/
inductive Edit where
  | add (parent : NodeId) (kind : Kind) (value : String)
  | append (parent child : NodeId)
  | cut (id : NodeId)
  | take (receiver donor : NodeId)
  | init (id : NodeId)
deriving DecidableEq, Repr

namespace Edit

/-- The call of an edit. -/
def call : Edit → Call
  | add parent kind value => .addChild parent kind value
  | append parent child => .attach parent child
  | cut id => .detach id
  | take receiver donor => .adopt receiver donor
  | init id => .reset id

/-- The tree that an edit makes, unless it is refused. -/
def run : Edit → Tree → Except TreeError Tree
  | add parent kind value, t => (t.addChild parent kind value).map (·.2)
  | append parent child, t => t.attach parent child
  | cut id, t => t.detach id
  | take receiver donor, t => t.adopt receiver donor
  | init id, t => t.reset id

/-- What an edit does to a forest. A node takes nothing from itself. -/
def onForest : Edit → Forest → Forest
  | add parent kind value, f => f.add parent kind value
  | append parent child, f => f.append parent child
  | cut id, f => f.cut id
  | take receiver donor, f => if receiver = donor then f else f.take receiver donor
  | init id, f => f.init id

variable {e : Edit} {es : List Edit} {t u v : Tree}

/-- An edit that is not refused is a call, which keeps a tree sound. -/
theorem run_sound (h : t.Sound) (hl : e.call.Live t) (he : e.run t = .ok u) : u.Sound := by
  have hrun : e.call.run t = t.orKeep (e.run t) := by cases e <;> rfl
  have hs := e.call.run_sound h hl
  rw [hrun, he] at hs
  exact hs

/-- An edit does to the forest of a tree what its name says, one case for each edit. -/
theorem forest_run (h : t.Sound) (hl : e.call.Live t) (he : e.run t = .ok u) :
    u.forest = e.onForest t.forest := by
  cases e with
  | add parent kind value =>
    have hp := hl parent List.mem_cons_self
    change (t.addChild parent kind value).map (·.2) = .ok u at he
    cases ha : t.addChild parent kind value with
    | error e =>
      rw [ha] at he
      cases he
    | ok out =>
      rw [ha] at he
      cases he
      exact (h.forest_addChild hp ha).2
  | append parent child => exact h.forest_attach he
  | cut id =>
    have hid := hl id List.mem_cons_self
    exact h.forest_detach hid he
  | take receiver donor =>
    have hr := hl receiver List.mem_cons_self
    have hd := hl donor (List.mem_cons_of_mem receiver List.mem_cons_self)
    change t.adopt receiver donor = .ok u at he
    unfold onForest
    by_cases hne : receiver = donor
    · rw [adopt_eq hr hd, if_pos hne] at he
      cases he
      exact (if_pos hne).symm
    · rw [h.forest_adopt hr hd hne he]
      exact (if_neg hne).symm
  | init id =>
    have hid := hl id List.mem_cons_self
    exact h.forest_reset hid he

/-- Edits lead from one tree to another, each with nodes that the tree has at the time and none of
them refused. -/
inductive Lead : Tree → List Edit → Tree → Prop
  | refl (t : Tree) : Lead t [] t
  | step {t u v : Tree} {e : Edit} {es : List Edit} (live : e.call.Live t)
      (he : e.run t = .ok u) (h : Lead u es v) : Lead t (e :: es) v

/-- A run of edits does to the forest what the edits do one after the other. -/
theorem forest_runAll (ht : t.Sound) (h : Lead t es v) :
    v.Sound ∧ v.forest = es.foldl (fun f e => e.onForest f) t.forest := by
  -- on the run, with what one edit does at its head
  induction h with
  | refl t => exact ⟨ht, rfl⟩
  | step live he _ ih =>
    obtain ⟨hs, hf⟩ := ih (run_sound ht live he)
    refine ⟨hs, ?_⟩
    rw [hf, forest_run ht live he]
    rfl

end Edit

/-- On a well-formed tree, with nodes that it has: what is added is a fresh leaf behind the children
of its parent, what is attached comes behind them, what is detached becomes a root with its own
children, what is adopted comes behind the children of the receiver wherever the receiver is, and
what is reset loses its children to the roots and keeps its place. Nothing else changes. -/
theorem WellFormed.edits_refine_forest (h : t.WellFormed) :
    (∀ p < t.size, ∀ kind value id u, t.addChild p kind value = .ok (id, u) →
      u.WellFormed ∧ id = t.size ∧ u.forest = t.forest.add p kind value) ∧
    (∀ p < t.size, ∀ c < t.size, ∀ u, t.attach p c = .ok u →
      u.WellFormed ∧ u.forest = t.forest.append p c) ∧
    (∀ x < t.size, ∃ u, t.detach x = .ok u ∧ u.WellFormed ∧ u.forest = t.forest.cut x) ∧
    (∀ r < t.size, ∀ d < t.size, r ≠ d → ∀ u, t.adopt r d = .ok u →
      u.WellFormed ∧ u.forest = t.forest.take r d) ∧
    ∀ x < t.size, ∃ u, t.reset x = .ok u ∧ u.WellFormed ∧ u.forest = t.forest.init x := by
  have hs := h.sound
  refine ⟨?_, ?_, ?_, ?_, ?_⟩
  · intro p hp kind value id u he
    exact ⟨(hs.addChild hp he).wellFormed, hs.forest_addChild hp he⟩
  · intro p hp c hc u he
    exact ⟨(hs.attach hp hc he).wellFormed, hs.forest_attach he⟩
  · intro x hx
    have he := detach_eq hx
    exact ⟨_, he, (hs.detach hx he).wellFormed, hs.forest_detach hx he⟩
  · intro r hr d hd hne u he
    exact ⟨(hs.adopt hr hd he).wellFormed, hs.forest_adopt hr hd hne he⟩
  · intro x hx
    have he := reset_eq hx
    exact ⟨_, he, (hs.reset hx he).wellFormed, hs.forest_reset hx he⟩

/-- The last child of a node gets a leaf, the node gets a root, and it takes over the children of
its last child, which stays where it is. -/
theorem edits_refine_forest_last_child :
    let t := (Call.makeRoot 5 "").run ((Call.addChild 2 4 "c").run ((Call.addChild 2 3 "b").run
      ((Call.addChild 0 untyped "").run ((Call.addChild 0 1 "a").run
        ((Call.makeRoot untyped "").run {})))))
    let u := (Call.addChild 2 6 "d").run t
    let v := (Call.attach 0 5).run t
    let w := (Call.adopt 0 2).run t
    t.WellFormed ∧
      t.addChild 2 6 "d" = .ok (6, u) ∧ (u.forest.entry 2).children = [3, 4, 6] ∧
      t.attach 0 5 = .ok v ∧ (v.forest.entry 0).children = [1, 2, 5] ∧
      t.adopt 0 2 = .ok w ∧ (w.forest.entry 0).children = [1, 2, 3, 4] ∧
        w.forest.entry 2 = ⟨untyped, "", some 0, []⟩ := by
  intro t u v w
  have h0 := Reachable.empty.call (.makeRoot untyped "") (by decide)
  have h1 := h0.call (.addChild 0 1 "a") (by decide)
  have h2 := h1.call (.addChild 0 untyped "") (by decide)
  have h3 := h2.call (.addChild 2 3 "b") (by decide)
  have h4 := h3.call (.addChild 2 4 "c") (by decide)
  have ht : Reachable t := h4.call (.makeRoot 5 "") (by decide)
  have hw := ht.sound.wellFormed
  rcases hw.edits_refine_forest with ⟨hadd, happend, _, htake, _⟩
  have hu : t.addChild 2 6 "d" = .ok (6, u) := by decide +kernel
  have hv : t.attach 0 5 = .ok v := by decide +kernel
  have hw' : t.adopt 0 2 = .ok w := by decide +kernel
  have hfu := (hadd 2 (by decide) 6 "d" 6 u hu).2.2
  have hfv := (happend 0 (by decide) 5 (by decide) v hv).2
  have hfw := (htake 0 (by decide) 2 (by decide) (by decide) w hw').2
  rw [hfu, hfv, hfw]
  exact ⟨hw, hu, by decide +kernel, hv, by decide +kernel, hw', by decide +kernel,
    by decide +kernel⟩

end Tree
end PegKit
