import PegKit.Proofs.Tree.Subtree

/-! # When edits are refused

The checks of the edits against the invariant that they stand for.

* `Tree.InPlace` has the checked edits as changes of one tree, on which everything that is written
  before an error stays written.
* `InPlace.run_addChild` and its like: made in place, an edit ends as it does otherwise, and a
  refused one has written nothing.
* `Sound.childAbove?_eq_none_iff`: the walk to the root finds all loops that an adoption would
  close.
* `WellFormed.edits_refused_iff`: an edit is refused exactly where it would break the tree.
-/

namespace PegKit.Tree

variable {t : Tree} {p c r d x : NodeId}

/-! ## Edits in place -/

/-- An edit of one tree. An error ends it, with the tree as it is by then. -/
abbrev InPlace := EStateM TreeError Tree

/-- How an edit in place ends that makes what another makes, or else leaves the tree alone. -/
def ending {α : Type} (t : Tree) : Except TreeError (α × Tree) → EStateM.Result TreeError Tree α
  | .ok (a, u) => .ok a u
  | .error e => .error e t

namespace InPlace

/-- Looks at the tree, which may end the edit. -/
def check {α : Type} (look : Tree → Except TreeError α) : InPlace α := fun t =>
  match look t with
  | .ok a => .ok a t
  | .error e => .error e t

/-- Makes a node and attaches it as the last child of `parent`. -/
def addChild (parent : NodeId) (kind : Kind) (value : String) : InPlace NodeId := do
  check (·.requireBranch parent)
  let child ← modifyGetThe Tree (·.makeRoot kind value)
  modifyThe Tree (·.linkUnder parent child)
  return child

/-- Changes the value of a node. -/
def setValue (id : NodeId) (value : String) : InPlace Unit := do
  if (← check (·.lookup id)).count > 0 ∧ value ≠ "" then throw (.valueOnBranch id)
  else modifyThe Tree (·.modify id fun n => { n with value })

/-- Attaches a root as the last child of `parent`. -/
def attach (parent child : NodeId) : InPlace Unit := do
  check (·.requireBranch parent)
  if (← check (·.lookup child)).parent.isSome then throw (.alreadyAttached child)
  else if child ∈ parent :: (← getThe Tree).ancestors parent then throw (.cycle parent child)
  else modifyThe Tree (·.linkUnder parent child)

/-- Moves every child of `donor` under `receiver`. -/
def adopt (receiver donor : NodeId) : InPlace Unit := do
  if receiver = donor then return ()
  else if (← check (·.lookup donor)).count = 0 then return ()
  else
    check (·.requireBranch receiver)
    match (← getThe Tree).childAbove? donor receiver with
    | some up => throw (.cycle receiver up)
    | none => modifyThe Tree (·.relinkChildren receiver donor)

/-- A look that ends the edit ends it with the tree as it was. -/
theorem run_check {α β : Type} (look : Tree → Except TreeError α) (k : α → InPlace β) (t : Tree) :
    (check look >>= k).run t = match look t with
      | .ok a => (k a).run t
      | .error e => .error e t := by
  show EStateM.bind (check look) k t = _
  unfold EStateM.bind check
  cases look t <;> rfl

theorem run_addChild (t : Tree) (p : NodeId) (kind : Kind) (value : String) :
    (addChild p kind value).run t = t.ending (t.addChild p kind value) := by
  unfold addChild Tree.addChild
  rw [run_check]
  cases t.requireBranch p with
  | error e => rfl
  | ok _ => rfl

theorem run_setValue (t : Tree) (x : NodeId) (value : String) :
    (setValue x value).run t = t.ending ((t.setValue x value).map ((), ·)) := by
  unfold setValue Tree.setValue
  rw [run_check]
  cases t.lookup x with
  | error e => rfl
  | ok n =>
    rw [Guarded.ok_bind]
    by_cases hbad : n.count > 0 ∧ value ≠ ""
    · simp only [if_pos hbad]
      rfl
    · simp only [if_neg hbad]
      rfl

theorem run_attach (t : Tree) (p c : NodeId) :
    (attach p c).run t = t.ending ((t.attach p c).map ((), ·)) := by
  unfold attach Tree.attach
  rw [run_check]
  cases t.requireBranch p with
  | error e => rfl
  | ok _ =>
    rw [Guarded.ok_bind]
    simp only
    rw [run_check]
    cases t.lookup c with
    | error e => rfl
    | ok n =>
      rw [Guarded.ok_bind]
      by_cases hroot : n.parent.isSome
      · simp only [if_pos hroot]
        rfl
      · simp only [if_neg hroot]
        show (if c ∈ p :: t.ancestors p then _ else _ : InPlace Unit).run t = _
        by_cases hloop : c ∈ p :: t.ancestors p
        · simp only [if_pos hloop]
          rfl
        · simp only [if_neg hloop]
          rfl

theorem run_adopt (t : Tree) (r d : NodeId) :
    (adopt r d).run t = t.ending ((t.adopt r d).map ((), ·)) := by
  unfold adopt Tree.adopt
  by_cases hne : r = d
  · rw [if_pos hne, if_pos hne]
    rfl
  · rw [if_neg hne, if_neg hne, run_check]
    cases t.lookup d with
    | error e => rfl
    | ok n =>
      rw [Guarded.ok_bind]
      by_cases h0 : n.count = 0
      · simp only [if_pos h0]
        rfl
      · simp only [if_neg h0]
        rw [run_check]
        cases t.requireBranch r with
        | error e => rfl
        | ok _ =>
          rw [Guarded.ok_bind]
          show (match t.childAbove? d r with
            | some up => throw (.cycle r up)
            | none => modifyThe Tree (·.relinkChildren r d) : InPlace Unit).run t = _
          cases t.childAbove? d r with
          | some up => rfl
          | none => rfl

end InPlace

/-! ## When an edit is accepted -/

namespace Sound

/-- The check of an adoption finds a child of the donor above the receiver exactly if the donor
is above it and another node. -/
theorem childAbove?_eq_none_iff (h : t.Sound) :
    t.childAbove? d r = none ↔ ¬ (t.Under r d ∧ r ≠ d) := by
  rw [childAbove?, List.find?_eq_none]
  constructor
  · rintro hnone ⟨hu, hne⟩
    rcases hu.exists_below hne with ⟨y, hy, hp⟩
    exact hnone y (h.mem_ancestors_iff.mpr hy) (decide_eq_true hp)
  · intro hno y hy hp
    have hp : (t.node y).parent = some d := of_decide_eq_true hp
    have hry := h.mem_ancestors_iff.mp hy
    refine hno ⟨hry.trans (.step hp (.refl d)), ?_⟩
    -- a child of the receiver would be above its own parent
    rintro rfl
    exact h.acyclic hp hry

theorem setValue_isOk_iff (h : t.Sound) (hx : x < t.size) (value : String) :
    (t.setValue x value).isOk = false ↔ t.children x ≠ [] ∧ value ≠ "" := by
  have hcount : (t.node x).count > 0 ↔ t.children x ≠ [] := by
    rw [h.count_eq hx]
    exact List.length_pos_iff
  rw [setValue_eq hx, ← hcount]
  split
  · next hbad => exact iff_of_true rfl hbad
  · next hgood => exact iff_of_false (Ne.symm Bool.false_ne_true) hgood

theorem attach_isOk_iff (h : t.Sound) (hp : p < t.size) (hc : c < t.size) :
    (t.attach p c).isOk = true ↔
      (t.node p).value = "" ∧ (t.node c).parent = none ∧ ¬ t.Under p c := by
  rw [attach_eq hp hc, ← h.mem_ancestors_iff]
  -- one case for each check, in the order of the checks
  split
  · next hv => exact iff_of_false Bool.false_ne_true fun hall => hv hall.1
  next hv =>
  split
  · next hroot =>
    refine iff_of_false Bool.false_ne_true fun hall => ?_
    rw [hall.2.1] at hroot
    exact Bool.false_ne_true hroot
  next hroot =>
  split
  · next hloop => exact iff_of_false Bool.false_ne_true fun hall => hall.2.2 hloop
  · next hloop =>
    have hnone := Option.not_isSome_iff_eq_none.mp hroot
    exact iff_of_true rfl ⟨Decidable.of_not_not hv, hnone, hloop⟩

theorem adopt_isOk_iff (h : t.Sound) (hr : r < t.size) (hd : d < t.size) :
    (t.adopt r d).isOk = true ↔
      r = d ∨ t.children d = [] ∨ (t.node r).value = "" ∧ ¬ (t.Under r d ∧ r ≠ d) := by
  have hcount : (t.node d).count = 0 ↔ t.children d = [] := by
    rw [h.count_eq hd]
    exact List.length_eq_zero_iff
  rw [adopt_eq hr hd, ← hcount]
  split
  · next hrd => exact iff_of_true rfl (Or.inl hrd)
  next hrd =>
  split
  · next hnil => exact iff_of_true rfl (Or.inr (Or.inl hnil))
  next hnil =>
  rw [or_iff_right hrd, or_iff_right hnil, ← h.childAbove?_eq_none_iff]
  split
  · next hv => exact iff_of_false Bool.false_ne_true fun hall => hv hall.1
  next hv =>
  cases t.childAbove? d r with
  | some up => exact iff_of_false Bool.false_ne_true fun hall => Option.some_ne_none up hall.2
  | none => exact iff_of_true rfl ⟨Decidable.of_not_not hv, rfl⟩

end Sound

theorem addChild_isOk_iff (hp : p < t.size) (kind : Kind) (value : String) :
    (t.addChild p kind value).isOk = false ↔ (t.node p).value ≠ "" := by
  rw [addChild_eq hp]
  split
  · next hv => exact iff_of_true rfl hv
  · next hv => exact iff_of_false (Ne.symm Bool.false_ne_true) hv

/-- On a well-formed tree, with nodes that it has: a child is refused exactly under a node with a
value, a value exactly for a node with children, an attachment exactly if the parent has a value or
the node is no root or is the parent or above it, and an adoption exactly if the donor is another
node with children and the receiver has a value or is below the donor. Made in place, each edit
makes the same, and a refused one leaves every node as it was. -/
theorem WellFormed.edits_refused_iff (h : t.WellFormed) :
    (∀ p < t.size, ∀ kind value,
      ((t.addChild p kind value).isOk = false ↔ (t.node p).value ≠ "") ∧
      (InPlace.addChild p kind value).run t = t.ending (t.addChild p kind value)) ∧
    (∀ x < t.size, ∀ value,
      ((t.setValue x value).isOk = false ↔ t.children x ≠ [] ∧ value ≠ "") ∧
      (InPlace.setValue x value).run t = t.ending ((t.setValue x value).map ((), ·))) ∧
    (∀ p < t.size, ∀ c < t.size,
      ((t.attach p c).isOk = true ↔
        (t.node p).value = "" ∧ (t.node c).parent = none ∧ ¬ t.Under p c) ∧
      (InPlace.attach p c).run t = t.ending ((t.attach p c).map ((), ·))) ∧
    ∀ r < t.size, ∀ d < t.size,
      ((t.adopt r d).isOk = true ↔
        r = d ∨ t.children d = [] ∨ (t.node r).value = "" ∧ ¬ (t.Under r d ∧ r ≠ d)) ∧
      (InPlace.adopt r d).run t = t.ending ((t.adopt r d).map ((), ·)) := by
  have hs := h.sound
  refine ⟨?_, ?_, ?_, ?_⟩
  · intro p hp kind value
    exact ⟨addChild_isOk_iff hp kind value, InPlace.run_addChild t p kind value⟩
  · intro x hx value
    exact ⟨hs.setValue_isOk_iff hx value, InPlace.run_setValue t x value⟩
  · intro p hp c hc
    exact ⟨hs.attach_isOk_iff hp hc, InPlace.run_attach t p c⟩
  · intro r hr d hd
    exact ⟨hs.adopt_isOk_iff hr hd, InPlace.run_adopt t r d⟩

/-- The root 0 has the leaf 1 and the branch 2, which has the leaf 3; the root 4 stands apart. A
leaf takes over nothing from a leaf, but nothing goes to it; a branch goes under a node elsewhere,
but not under its own child. -/
theorem edits_refused_iff_loop :
    let t := (Call.makeRoot 5 "").run ((Call.addChild 2 3 "b").run ((Call.addChild 0 untyped "").run
      ((Call.addChild 0 1 "a").run ((Call.makeRoot untyped "").run {}))))
    t.WellFormed ∧
      (InPlace.addChild 1 9 "x").run t = .error (.childUnderLeaf 1) t ∧
      (t.setValue 2 "").isOk = true ∧ (t.setValue 2 "x").isOk = false ∧
      (t.attach 4 0).isOk = true ∧ (InPlace.attach 2 0).run t = .error (.cycle 2 0) t ∧
      (t.adopt 1 3).isOk = true ∧ (t.adopt 0 2).isOk = true ∧
      (InPlace.adopt 2 0).run t = .error (.cycle 2 2) t := by
  intro t
  have h0 := Reachable.empty.call (.makeRoot untyped "") (by decide)
  have h1 := h0.call (.addChild 0 1 "a") (by decide)
  have h2 := h1.call (.addChild 0 untyped "") (by decide)
  have h3 := h2.call (.addChild 2 3 "b") (by decide)
  have ht : Reachable t := h3.call (.makeRoot 5 "") (by decide)
  have hs := ht.sound
  rcases hs.wellFormed.edits_refused_iff with ⟨hadd, hset, hattach, hadopt⟩
  refine ⟨hs.wellFormed, ?_, ?_, ?_, ?_, ?_, ?_, ?_, ?_⟩
  · rw [(hadd 1 (by decide) 9 "x").2]
    have he : t.addChild 1 9 "x" = .error (.childUnderLeaf 1) := by decide +kernel
    rw [he]
    rfl
  · rw [← Bool.not_eq_false, (hset 2 (by decide) "").1]
    exact fun hbad => hbad.2 rfl
  · exact (hset 2 (by decide) "x").1.mpr ⟨by decide +kernel, by decide⟩
  · refine (hattach 4 (by decide) 0 (by decide)).1.mpr ⟨by decide +kernel, by decide +kernel, ?_⟩
    rw [← hs.mem_ancestors_iff]
    decide +kernel
  · rw [(hattach 2 (by decide) 0 (by decide)).2]
    have he : t.attach 2 0 = .error (.cycle 2 0) := by decide +kernel
    rw [he]
    rfl
  · exact (hadopt 1 (by decide) 3 (by decide)).1.mpr (Or.inr (Or.inl (by decide +kernel)))
  · refine (hadopt 0 (by decide) 2 (by decide)).1.mpr (Or.inr (Or.inr ⟨by decide +kernel, ?_⟩))
    rw [← hs.mem_ancestors_iff]
    decide +kernel
  · rw [(hadopt 2 (by decide) 0 (by decide)).2]
    have he : t.adopt 2 0 = .error (.cycle 2 2) := by decide +kernel
    rw [he]
    rfl

end PegKit.Tree
