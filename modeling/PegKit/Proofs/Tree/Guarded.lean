import PegKit.Proofs.Tree.Calls

/-! # Guarded edits

Every edit again, reading and writing nodes that must be there and counting down only what is not
zero. What would go wrong in either way is a fault.

* `Guarded.read`, `Guarded.write` and `Guarded.takeChild` are where faults come from.
* `Call.guarded` is a call over these.
* `Call.guarded_eq`: on a sound tree with the nodes that it names, a call has no fault and leaves
  what it leaves unguarded.
-/

namespace PegKit.Tree

/-- What an edit must not do. -/
inductive Fault where
  /-- Reading or writing a node that the arena does not have. -/
  | outside (id : NodeId)
  /-- Counting down from zero. -/
  | underflow (id : NodeId)
deriving DecidableEq, Repr

namespace Guarded

/-! ## Nodes -/

/-- A node that must be there. -/
def read (t : Tree) (id : NodeId) : Except Fault Node :=
  if id < t.size then .ok (t.node id) else .error (.outside id)

/-- Changes a node that must be there. -/
def write (t : Tree) (id : NodeId) (f : Node → Node) : Except Fault Tree :=
  if id < t.size then .ok (t.modify id f) else .error (.outside id)

/-- Changes the node that a link leads to, if it leads to one. -/
def writeLink (t : Tree) (link : Option NodeId) (f : Node → Node) : Except Fault Tree :=
  match link with
  | some id => write t id f
  | none => .ok t

/-- Takes the child `id` out of the ends and the count of its parent. -/
def takeChild (t : Tree) (parent : Option NodeId) (id : NodeId) (left right : Option NodeId) :
    Except Fault Tree :=
  match parent with
  | some p => do
    if (← read t p).count = 0 then .error (.underflow p)
    else write t p fun n => n.withoutChild id left right
  | none => .ok t

/-- The nodes met from `start` on. -/
def follow (t : Tree) (link : Node → Option NodeId) : (fuel : Nat) → (start : Option NodeId) →
    Except Fault (List NodeId)
  | 0, _ => .ok []
  | _, none => .ok []
  | fuel + 1, some id => do
    let n ← read t id
    let ids ← follow t link fuel (link n)
    return id :: ids

def children (t : Tree) (id : NodeId) : Except Fault (List NodeId) := do
  follow t Node.right t.size (← read t id).first

def ancestors (t : Tree) (id : NodeId) : Except Fault (List NodeId) := do
  follow t Node.parent t.size (← read t id).parent

/-! ## Links -/

def linkUnder (t : Tree) (parent child : NodeId) : Except Fault Tree := do
  let last := (← read t parent).last
  let t ← write t child fun n => { n with parent := some parent, left := last, right := none }
  let t ← match last with
    | some l => write t l fun n => { n with right := some child }
    | none => write t parent fun n => { n with first := some child }
  write t parent fun n => { n with last := some child, count := n.count + 1 }

def unlink (t : Tree) (id : NodeId) : Except Fault Tree := do
  let x ← read t id
  let t ← writeLink t x.left fun n => { n with right := x.right }
  let t ← writeLink t x.right fun n => { n with left := x.left }
  let t ← takeChild t x.parent id x.left x.right
  write t id fun n => { n with parent := none, left := none, right := none }

def unlinkChildren (t : Tree) (id : NodeId) : Except Fault Tree := do
  (← children t id).foldlM unlink t

def relinkChildren (t : Tree) (receiver donor : NodeId) : Except Fault Tree := do
  match (← read t donor).first with
  | none => return t
  | some first =>
    let t ← (← children t donor).foldlM
      (fun t c => write t c fun n => { n with parent := some receiver }) t
    let d ← read t donor
    let t ← write t donor fun n => { n with first := none, last := none, count := 0 }
    let t ← match (← read t receiver).last with
      | some tail => do
        let t ← write t tail fun n => { n with right := some first }
        write t first fun n => { n with left := some tail }
      | none => write t receiver fun n => { n with first := some first }
    write t receiver fun n => { n with last := d.last, count := n.count + d.count }

/-! ## Copies -/

def visitQueue (t : Tree) : (fuel : Nat) → (queue : List NodeId) → Except Fault (List NodeId)
  | 0, _ => .ok []
  | _, [] => .ok []
  | fuel + 1, id :: queue => do
    let kids ← children t id
    let ids ← visitQueue t fuel (queue ++ kids)
    return id :: ids

def clone (t : Tree) (id : NodeId) : Except Fault Tree := do
  let order ← visitQueue t t.size [id]
  let nodes ← order.mapM (read t)
  return { t with nodes := t.nodes ++ nodes.map fun n => n.mapLinks (t.copyOf? order) }

def become (t : Tree) (target source : NodeId) : Except Fault Tree := do
  let copy := t.size
  let t ← clone t source
  let t ← unlinkChildren t target
  let x ← read t copy
  let t ← write t copy fun n => { n with value := "" }
  let t ← write t target fun n => { n with kind := x.kind, value := x.value }
  relinkChildren t target copy

/-! ## Checkpoints and documents -/

def release (c : Nat) (t : Tree) (id : NodeId) : Except Fault Tree := do
  let kids ← children t id
  let t ← (kids.filter (· < c)).foldlM unlink t
  if (← read t id).parent.any (· < c) then unlink t id else return t

def rollback (t : Tree) (c : Nat) : Except Fault Tree := do
  let t ← (List.range' c (t.size - c)).reverse.foldlM (release c) t
  return { t with nodes := t.nodes.take c }

/-- Whether the documents were accepted, and what they leave. -/
def insertPending : (fuel : Nat) → (pending : List (Document × NodeId)) → Tree →
    Except Fault (Bool × Tree)
  | 0, _, t => .ok (true, t)
  | _, [], t => .ok (true, t)
  | fuel + 1, (doc, parent) :: pending, t =>
    match doc.parts with
    | .error _ => .ok (false, t)
    | .ok (kind, value, nodes) => do
      let id := t.size
      let t ← linkUnder (t.makeRoot kind value).2 parent id
      insertPending fuel (nodes.map (·, id) ++ pending) t

def insertJson (t : Tree) (text : String) : Except Fault Tree :=
  match Document.read? text with
  | none => .ok t
  | some doc =>
    match doc.parts with
    | .error _ => rollback t t.checkpoint
    | .ok (kind, value, nodes) => do
      let root := t.size
      let (accepted, u) ← insertPending doc.size (nodes.map (·, root)) (t.makeRoot kind value).2
      if accepted then return u else rollback u t.checkpoint

end Guarded

/-- What a call leaves, if it has no fault. -/
def Call.guarded : Call → Tree → Except Fault Tree
  | makeRoot kind value, t => .ok (t.makeRoot kind value).2
  | addChild parent kind value, t => do
    if (← Guarded.read t parent).value ≠ "" then return t
    else Guarded.linkUnder (t.makeRoot kind value).2 parent t.size
  | attach parent child, t => do
    if (← Guarded.read t parent).value ≠ "" then return t
    else if (← Guarded.read t child).parent.isSome then return t
    else if child ∈ parent :: (← Guarded.ancestors t parent) then return t
    else Guarded.linkUnder t parent child
  | detach id, t => Guarded.unlink t id
  | adopt receiver donor, t => do
    if receiver = donor then return t
    else if (← Guarded.read t donor).count = 0 then return t
    else if (← Guarded.read t receiver).value ≠ "" then return t
    else
      -- the walk up reads every node that the check looks at
      let _ ← Guarded.ancestors t receiver
      match t.childAbove? donor receiver with
      | some _ => return t
      | none => Guarded.relinkChildren t receiver donor
  | clone id, t => Guarded.clone t id
  | become target source, t => Guarded.become t target source
  | reset id, t => do
    let t ← Guarded.unlinkChildren t id
    Guarded.write t id fun n => { n with kind := untyped, value := "" }
  | setKind id kind, t => Guarded.write t id fun n => { n with kind }
  | setValue id value, t => do
    if (← Guarded.read t id).count > 0 ∧ value ≠ "" then return t
    else Guarded.write t id fun n => { n with value }
  | insertJson text, t => Guarded.insertJson t text
  | rollback checkpoint, t => Guarded.rollback t checkpoint

/-! ## No faults -/

namespace Guarded

variable {t : Tree} {id p c r d : NodeId}

theorem ok_bind {ε α β : Type} (a : α) (f : α → Except ε β) : (Except.ok a >>= f) = f a := rfl

theorem read_eq (h : id < t.size) : read t id = .ok (t.node id) := if_pos h

theorem write_eq (h : id < t.size) (f : Node → Node) : write t id f = .ok (t.modify id f) :=
  if_pos h

theorem writeLink_eq {link : Option NodeId} (h : ∀ id, link = some id → id < t.size)
    (f : Node → Node) : writeLink t link f = .ok (t.modifyLink link f) := by
  cases link with
  | none => rfl
  | some id => exact write_eq (h id rfl) f

theorem takeChild_eq {parent left right : Option NodeId}
    (h : ∀ p, parent = some p → p < t.size ∧ (t.node p).count ≠ 0) :
    takeChild t parent id left right =
      .ok (t.modifyLink parent fun n => n.withoutChild id left right) := by
  cases parent with
  | none => rfl
  | some p =>
    rcases h p rfl with ⟨hp, hc⟩
    unfold takeChild
    simp only [read_eq hp, ok_bind, if_neg hc]
    exact write_eq hp _

/-- Links that stay inside are followed without a fault. -/
theorem follow_eq {link : Node → Option NodeId}
    (hlink : ∀ x y, x < t.size → link (t.node x) = some y → y < t.size) {fuel : Nat}
    {start : Option NodeId} (hs : ∀ x, start = some x → x < t.size) :
    follow t link fuel start = .ok (t.follow link fuel start) := by
  -- on the fuel, and every node that is met is inside
  induction fuel generalizing start with
  | zero => rfl
  | succ fuel ih =>
    cases start with
    | none => rfl
    | some id =>
      have hid := hs id rfl
      rw [follow, read_eq hid, ok_bind, ih fun y hy => hlink id y hid hy]
      rfl

theorem children_eq (h : t.Sound) (hid : id < t.size) :
    children t id = .ok (t.children id) := by
  rw [children, read_eq hid, ok_bind]
  refine follow_eq (fun x y hx hy => (h.laidOut.neighbours_lt hx).2 y hy) ?_
  intro x hx
  rw [h.laidOut.first_eq] at hx
  exact h.laidOut.lt_of_mem (List.mem_of_head? hx)

theorem ancestors_eq (h : t.Sound) (hid : id < t.size) :
    ancestors t id = .ok (t.ancestors id) := by
  rw [ancestors, read_eq hid, ok_bind]
  exact follow_eq (fun x y _ hy => (h.parent_lt hy).2) fun x hx => (h.parent_lt hx).2

theorem foldlM_write_eq {ids : List NodeId} {f : Node → Node} (hids : ∀ id ∈ ids, id < t.size) :
    ids.foldlM (fun t id => write t id f) t = .ok (ids.foldl (fun t id => t.modify id f) t) := by
  induction ids generalizing t with
  | nil => rfl
  | cons id ids ih =>
    rw [List.foldlM_cons, write_eq (hids id List.mem_cons_self), ok_bind, List.foldl_cons]
    apply ih
    intro i hi
    rw [size_modify]
    exact hids i (List.mem_cons_of_mem id hi)

/-! ## Links -/

theorem linkUnder_eq (h : t.Sound) (hp : p < t.size) (hc : c < t.size) :
    linkUnder t p c = .ok (t.linkUnder p c) := by
  rw [linkUnder, Tree.linkUnder, read_eq hp, ok_bind]
  cases hl : (t.node p).last with
  | none =>
    simp only [write_eq, ok_bind, size_modify, hp, hc]
  | some l =>
    have hl' := h.last_lt hp hl
    simp only [write_eq, ok_bind, size_modify, hp, hc, hl']

/-- A node that has a parent is one of its children, so that there is one to count down. -/
theorem unlink_eq (h : t.Sound) (hc : c < t.size) : unlink t c = .ok (t.unlink c) := by
  rcases h.laidOut.neighbours_lt hc with ⟨hleft, hright⟩
  have hcount : ∀ p, (t.node c).parent = some p → (t.node p).count ≠ 0 := by
    intro p hp
    rw [h.count_eq (h.parent_lt hp).2]
    exact Nat.ne_of_gt (List.length_pos_of_mem (h.mem_children_iff.mpr hp))
  rw [unlink, Tree.unlink, read_eq hc]
  simp only [ok_bind]
  -- three writes that follow links, and one to the node itself
  rw [writeLink_eq hleft, ok_bind, writeLink_eq (by simpa using hright), ok_bind, takeChild_eq,
    ok_bind, write_eq (by simpa using hc)]
  intro p hp
  have hp' := (h.parent_lt hp).2
  refine ⟨by simpa using hp', ?_⟩
  rw [node_modifyLink (by simpa using hright), node_modifyLink hleft]
  have hne := hcount p hp
  split <;> split <;> exact hne

theorem foldlM_unlink_eq (h : t.Sound) {ids : List NodeId} (hids : ∀ id ∈ ids, id < t.size) :
    ids.foldlM unlink t = .ok (ids.foldl Tree.unlink t) := by
  induction ids generalizing t with
  | nil => rfl
  | cons id ids ih =>
    have hid := hids id List.mem_cons_self
    rw [List.foldlM_cons, unlink_eq h hid, ok_bind, List.foldl_cons]
    apply ih (h.unlink hid)
    intro i hi
    rw [size_unlink]
    exact hids i (List.mem_cons_of_mem id hi)

theorem unlinkChildren_eq (h : t.Sound) (hid : id < t.size) :
    unlinkChildren t id = .ok (t.unlinkChildren id) := by
  rw [unlinkChildren, children_eq h hid, ok_bind]
  exact foldlM_unlink_eq h fun c hc => h.laidOut.lt_of_mem hc

theorem relinkChildren_eq (h : t.Sound) (hr : r < t.size) (hd : d < t.size) (hne : r ≠ d) :
    relinkChildren t r d = .ok (t.relinkChildren r d) := by
  rw [relinkChildren, Tree.relinkChildren, read_eq hd, ok_bind]
  cases hf : (t.node d).first with
  | none => rfl
  | some first =>
    have hfd : first < t.size := by
      rw [h.laidOut.first_eq] at hf
      exact h.laidOut.lt_of_mem (List.mem_of_head? hf)
    have hkids : ∀ x ∈ t.children d, x < t.size := fun x hx => h.laidOut.lt_of_mem hx
    simp only [children_eq h hd, ok_bind, foldlM_write_eq hkids]
    have hnode := node_reparent hkids r
    have hsize : ((t.children d).foldl
        (fun t c => t.modify c fun n => { n with parent := some r }) t).size = t.size :=
      size_foldl_modify
    -- new parents change neither the size nor an end of a chain
    generalize (t.children d).foldl
      (fun t c => t.modify c fun n => { n with parent := some r }) t = u at hnode hsize ⊢
    have hr' : r < u.size := hsize ▸ hr
    have hd' : d < u.size := hsize ▸ hd
    have hf' : first < u.size := hsize ▸ hfd
    simp only [read_eq, write_eq, ok_bind, size_modify, hr', hd']
    cases hl : ((u.modify d fun n =>
        { n with first := none, last := none, count := 0 }).node r).last with
    | none => rfl
    | some l =>
      rw [node_modify hd', if_neg hne.symm, hnode] at hl
      have hl' : l < u.size := hsize ▸ h.last_lt hr hl
      simp only [write_eq, ok_bind, size_modify, hr', hl', hf']

/-! ## Copies -/

theorem visitQueue_eq (h : t.Sound) {fuel : Nat} {queue : List NodeId}
    (hq : ∀ id ∈ queue, id < t.size) :
    visitQueue t fuel queue = .ok (t.visitQueue fuel queue) := by
  induction fuel generalizing queue with
  | zero => rfl
  | succ fuel ih =>
    cases queue with
    | nil => rfl
    | cons id queue =>
      have hnext : ∀ x ∈ queue ++ t.children id, x < t.size := by
        intro x hx
        rcases List.mem_append.mp hx with hx | hx
        · exact hq x (List.mem_cons_of_mem id hx)
        · exact h.laidOut.lt_of_mem hx
      rw [visitQueue, children_eq h (hq id List.mem_cons_self), ok_bind, ih hnext]
      rfl

theorem mapM_read_eq {ids : List NodeId} (hids : ∀ id ∈ ids, id < t.size) :
    ids.mapM (read t) = .ok (ids.map t.node) := by
  induction ids with
  | nil => rfl
  | cons id ids ih =>
    rw [List.mapM_cons, read_eq (hids id List.mem_cons_self), ok_bind,
      ih fun i hi => hids i (List.mem_cons_of_mem id hi)]
    rfl

theorem clone_eq (h : t.Sound) (hid : id < t.size) :
    clone t id = .ok (t.withCopies (t.byLevel id)) := by
  have hq : ∀ x ∈ [id], x < t.size := fun x hx => List.mem_singleton.mp hx ▸ hid
  have hlive : ∀ x ∈ t.visitQueue t.size [id], x < t.size := (gathered_byLevel h hid).live
  rw [clone, visitQueue_eq h hq, ok_bind, mapM_read_eq hlive, ok_bind, List.map_map]
  rfl

theorem become_eq (h : t.Sound) (hr : r < t.size) (hd : d < t.size) :
    become t r d =
      .ok (((t.withCopies (t.byLevel d)).unlinkChildren r).becomeCopy r t.size) := by
  have hg := gathered_byLevel h hd
  have h1 := sound_withCopies h hg
  have hsize1 : (t.withCopies (t.byLevel d)).size = t.size + (t.byLevel d).length :=
    size_withCopies
  have hpos : 0 < (t.byLevel d).length := List.length_pos_of_mem (List.mem_of_head? hg.head)
  rw [become, clone_eq h hd]
  simp only [ok_bind]
  generalize t.withCopies (t.byLevel d) = t1 at h1 hsize1 ⊢
  have hr1 : r < t1.size := by rw [hsize1]; exact Nat.lt_add_right _ hr
  have hc1 : t.size < t1.size := by rw [hsize1]; exact Nat.lt_add_of_pos_right hpos
  rcases h1.unlinkChildren r with ⟨h2, hsize2, hnone, _⟩
  rw [unlinkChildren_eq h1 hr1, ok_bind]
  generalize t1.unlinkChildren r = t2 at h2 hsize2 hnone ⊢
  have hr2 : r < t2.size := hsize2 ▸ hr1
  have hc2 : t.size < t2.size := hsize2 ▸ hc1
  rcases h2.fillFrom hc2 hr2 hnone with ⟨h3, hs3, _⟩
  rw [read_eq hc2, ok_bind, write_eq hc2, ok_bind, write_eq (by simpa using hr2), ok_bind]
  exact relinkChildren_eq h3 (hs3.size_eq ▸ hr2) (hs3.size_eq ▸ hc2) (Nat.ne_of_lt hr)

/-! ## Checkpoints and documents -/

theorem release_eq (h : t.Sound) (hid : id < t.size) (c : Nat) :
    release c t id = .ok (t.release c id) := by
  have hids : ∀ x ∈ (t.children id).filter (· < c), x < t.size := fun x hx =>
    h.laidOut.lt_of_mem (List.mem_filter.mp hx).1
  rcases h.foldl_unlink _ hids with ⟨hs, hsize, _⟩
  rw [release, Tree.release, children_eq h hid, ok_bind, foldlM_unlink_eq h hids, ok_bind]
  generalize ((t.children id).filter (· < c)).foldl Tree.unlink t = t1 at hs hsize ⊢
  have hid1 : id < t1.size := hsize ▸ hid
  rw [read_eq hid1, ok_bind]
  split
  · exact unlink_eq hs hid1
  · rfl

theorem foldlM_release_eq (h : t.Sound) {ids : List NodeId} (hids : ∀ id ∈ ids, id < t.size)
    (c : Nat) : ids.foldlM (release c) t = .ok (ids.foldl (Tree.release c) t) := by
  induction ids generalizing t with
  | nil => rfl
  | cons id ids ih =>
    have hid := hids id List.mem_cons_self
    rcases release_spec (c := c) h hid with ⟨h1, hsize1, _⟩
    rw [List.foldlM_cons, release_eq h hid, ok_bind, List.foldl_cons]
    apply ih h1
    intro i hi
    rw [hsize1]
    exact hids i (List.mem_cons_of_mem id hi)

theorem rollback_eq (h : t.Sound) (c : Nat) : rollback t c = .ok (t.rollback c) := by
  rw [rollback, foldlM_release_eq h (lt_of_mem_forgotten t c)]
  rfl

/-- Whether an outcome is no refusal. -/
def accepted {α : Type} : Except TreeError α → Bool
  | .ok _ => true
  | .error _ => false

theorem insertPending_eq (h : t.Sound) {pending : List (Document × NodeId)}
    (hw : t.Waiting pending) (fuel : Nat) : insertPending fuel pending t =
      .ok (accepted (t.insertPending fuel pending).1, (t.insertPending fuel pending).2) := by
  induction fuel generalizing t pending with
  | zero => rfl
  | succ fuel ih =>
    match pending with
    | [] => rfl
    | (doc, p) :: pending =>
      rcases hw (doc, p) List.mem_cons_self with ⟨hp, hv⟩
      rw [insertPending, Tree.insertPending]
      cases hd : doc.parts with
      | error e => rfl
      | ok parts =>
        rcases parts with ⟨kind, value, nodes⟩
        have hlink : linkUnder (t.makeRoot kind value).2 p t.size =
            .ok ((t.makeRoot kind value).2.linkUnder p t.size) :=
          linkUnder_eq (h.makeRoot kind value) (size_makeRoot ▸ Nat.lt_succ_of_lt hp)
            (size_makeRoot ▸ Nat.lt_succ_self t.size)
        dsimp only
        rw [hlink, ok_bind]
        exact ih (h.linkNew hp hv kind value) (Waiting.linkNew h hw hd)

theorem insertJson_eq (h : t.Sound) (text : String) :
    insertJson t text = .ok (t.insertJson text).2 := by
  rw [insertJson, Tree.insertJson]
  cases Document.read? text with
  | none => rfl
  | some doc =>
    dsimp only
    cases hd : doc.parts with
    | error e =>
      rw [Tree.insertDocument, hd]
      exact rollback_eq h _
    | ok parts =>
      rcases parts with ⟨kind, value, nodes⟩
      have hw : (t.makeRoot kind value).2.Waiting (nodes.map (·, t.size)) :=
        waiting_makeRoot hd
      have hs := insertPending_sound (h.makeRoot kind value) hw doc.size
      dsimp only
      rw [insertPending_eq (h.makeRoot kind value) hw, ok_bind, insertDocument_eq hd]
      generalize Tree.insertPending doc.size _ (t.makeRoot kind value).2 = out at hs ⊢
      rcases out with ⟨e | u, t'⟩
      · exact rollback_eq hs _
      · rfl

end Guarded

/-- On a sound tree that has the nodes it names, a call has no fault: whether it is refused or not,
it leaves what it leaves unguarded. -/
theorem Call.guarded_eq {t : Tree} (h : t.Sound) {c : Call} (hl : c.Live t) :
    c.guarded t = .ok (c.run t) := by
  cases c with
  | makeRoot kind value => rfl
  | addChild parent kind value =>
    have hp : parent < t.size := hl parent List.mem_cons_self
    rw [guarded, run, addChild_eq hp, Guarded.read_eq hp, Guarded.ok_bind]
    split
    · rfl
    · exact Guarded.linkUnder_eq (h.makeRoot kind value) (size_makeRoot ▸ Nat.lt_succ_of_lt hp)
        (size_makeRoot ▸ Nat.lt_succ_self t.size)
  | attach parent child =>
    have hp : parent < t.size := hl parent List.mem_cons_self
    have hc : child < t.size := hl child (List.mem_cons_of_mem parent List.mem_cons_self)
    rw [guarded, run, attach_eq hp hc, Guarded.read_eq hp, Guarded.ok_bind]
    split
    · rfl
    rw [Guarded.read_eq hc, Guarded.ok_bind]
    split
    · rfl
    rw [Guarded.ancestors_eq h hp, Guarded.ok_bind]
    split
    · rfl
    · exact Guarded.linkUnder_eq h hp hc
  | detach id =>
    have hid : id < t.size := hl id List.mem_cons_self
    rw [guarded, run, detach_eq hid]
    exact Guarded.unlink_eq h hid
  | adopt receiver donor =>
    have hr : receiver < t.size := hl receiver List.mem_cons_self
    have hd : donor < t.size := hl donor (List.mem_cons_of_mem receiver List.mem_cons_self)
    rw [guarded, run, adopt_eq hr hd]
    split
    · rfl
    next hne =>
    rw [Guarded.read_eq hd, Guarded.ok_bind]
    split
    · rfl
    rw [Guarded.read_eq hr, Guarded.ok_bind]
    split
    · rfl
    rw [Guarded.ancestors_eq h hr, Guarded.ok_bind]
    cases t.childAbove? donor receiver with
    | some up => rfl
    | none => exact Guarded.relinkChildren_eq h hr hd hne
  | clone id =>
    have hid : id < t.size := hl id List.mem_cons_self
    rw [guarded, run, clone_eq hid]
    exact Guarded.clone_eq h hid
  | become target source =>
    have ht : target < t.size := hl target List.mem_cons_self
    have hs : source < t.size := hl source (List.mem_cons_of_mem target List.mem_cons_self)
    rw [guarded, run, become_eq ht hs, orKeep_ok]
    exact Guarded.become_eq h ht hs
  | reset id =>
    have hid : id < t.size := hl id List.mem_cons_self
    rcases h.unlinkChildren id with ⟨_, hsize, _⟩
    rw [guarded, run, reset_eq hid, Guarded.unlinkChildren_eq h hid, Guarded.ok_bind]
    exact Guarded.write_eq (hsize ▸ hid) _
  | setKind id kind =>
    have hid : id < t.size := hl id List.mem_cons_self
    rw [guarded, run, setKind_eq hid]
    exact Guarded.write_eq hid _
  | setValue id value =>
    have hid : id < t.size := hl id List.mem_cons_self
    rw [guarded, run, setValue_eq hid, Guarded.read_eq hid, Guarded.ok_bind]
    split
    · rfl
    · exact Guarded.write_eq hid _
  | insertJson text => exact Guarded.insertJson_eq h text
  | rollback checkpoint => exact Guarded.rollback_eq h checkpoint

end PegKit.Tree
