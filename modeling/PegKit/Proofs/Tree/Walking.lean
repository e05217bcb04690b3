import PegKit.Proofs.Loop
import PegKit.Proofs.Tree.Insertion

/-! # Walks without bounds

Looking for children and for ancestors follows links from node to node, with the size of the arena
as a bound, and a document is inserted with its size as one. Here are the same walks without a
bound, and the edits that need them.

* `Unbounded.walk` follows a link to the end, and `Unbounded.isAbove` looks for a node on the way to
  the root. Where links form a loop there may be no result.
* `Unbounded.attach_eq` and `Unbounded.rollback_eq`: in a sound tree every walk of these edits ends,
  and they do what they do with the bound.
* `Unbounded.reset_eq`: so it is with taking the first child away until there is none.
* `Unbounded.insertJson_eq`: so it is with the stack of documents that wait for their parents.
-/

noncomputable section

namespace PegKit.Unbounded

/-! ## Following links -/

/-- The nodes met from `start` on, one link after the other, behind the ones that are `met`. -/
def walk (t : Tree) (link : Node → Option NodeId) (met : List NodeId) (start : Option NodeId) :
    Option (List NodeId) :=
  loop (fun (met, next) =>
    match next with
    | none => some (.inl met)
    | some id => some (.inr (met ++ [id], link (t.node id)))) (met, start)

/-- Whether the way up from `id` meets the node `up`, `id` itself included. -/
def isAbove (t : Tree) (up id : NodeId) : Option Bool :=
  loop (fun id =>
    if id = up then some (.inl true)
    else
      match (t.node id).parent with
      | some p => some (.inr p)
      | none => some (.inl false)) id

/-! ## Edits that walk -/

/-- Attaches a root as the last child of `parent`. -/
def attach (t : Tree) (parent child : NodeId) : ExceptT TreeError Option Tree := do
  t.requireBranch parent
  if (← t.lookup child).parent.isSome then throw (.alreadyAttached child)
  else if ← isAbove t child parent then throw (.cycle parent child)
  else return t.linkUnder parent child

/-- Cuts every link between the node `id`, which is to be forgotten, and the nodes below `c`. -/
def release (c : Nat) (t : Tree) (id : NodeId) : Option Tree := do
  let children ← walk t Node.right [] (t.node id).first
  let t := (children.filter (· < c)).foldl Tree.unlink t
  return if (t.node id).parent.any (· < c) then t.unlink id else t

/-- Forgets every node made since the checkpoint `c`. -/
def rollback (t : Tree) (c : Nat) : Option Tree := do
  let t ← (List.range' c (t.size - c)).reverse.foldlM (release c) t
  return { t with nodes := t.nodes.take c }

/-- Makes every child of `id` a root, the first one as long as there is one. -/
def unlinkChildren (t : Tree) (id : NodeId) : Option Tree :=
  loop (fun t =>
    match (t.node id).first with
    | some child => some (.inr (t.unlink child))
    | none => some (.inl t)) t

/-- Makes a node untyped and empty. Its children become roots. -/
def reset (t : Tree) (id : NodeId) : ExceptT TreeError Option Tree := do
  let _ ← t.lookup id
  let t ← unlinkChildren t id
  return t.modify id fun n => { n with kind := untyped, value := "" }

/-! ## Documents -/

/-- Takes up the last of the pending documents. Its nodes go behind those that are left, the last
one first. -/
def insertRound : List (Document × NodeId) × Tree →
    Option ((Except TreeError Unit × Tree) ⊕ (List (Document × NodeId) × Tree))
  | (pending, t) =>
    match pending.getLast? with
    | none => some (.inl (.ok (), t))
    | some (doc, parent) =>
      match doc.parts with
      | .error e => some (.inl (.error e, t))
      | .ok (kind, value, nodes) =>
        let (id, t) := t.makeRoot kind value
        some (.inr (pending.dropLast ++ nodes.reverse.map (·, id), t.linkUnder parent id))

/-- Makes the nodes of a document and returns its root. -/
def insertDocument (t : Tree) (doc : Document) : Option (Except TreeError NodeId × Tree) :=
  match doc.parts with
  | .error e => some (.error e, t)
  | .ok (kind, value, nodes) => do
    let (root, t) := t.makeRoot kind value
    let (outcome, t) ← loop insertRound (nodes.reverse.map (·, root), t)
    return (outcome.map fun _ => root, t)

/-- Decodes a text and makes its nodes. On an error they are forgotten. -/
def insertJson (t : Tree) (text : String) : Option (Except TreeError NodeId × Tree) :=
  match Document.read? text with
  | none => some (.error .json, t)
  | some doc => do
    match ← insertDocument t doc with
    | (.ok root, t') => return (.ok root, t')
    | (.error e, t') => return (.error e, ← rollback t' t.checkpoint)

variable {t : Tree} {link : Node → Option NodeId}

/-! ## Walks that end -/

/-- A walk along a chain ends with it. -/
theorem walk_of_chain {start : Option NodeId} {ids : List NodeId} (h : t.Chain link start ids)
    (met : List NodeId) : walk t link met start = some (met ++ ids) := by
  induction ids generalizing start met with
  | nil =>
    rw [show start = none from h, List.append_nil]
    exact loop_of_done rfl
  | cons id ids ih =>
    rcases h with ⟨rfl, hc⟩
    rw [← List.singleton_append, ← List.append_assoc, ← ih hc]
    exact loop_of_next rfl

theorem walk_children (h : t.Sound) (id : NodeId) :
    walk t Node.right [] (t.node id).first = some (t.children id) := by
  have hc : t.Chain Node.right (t.children id).head? (t.children id) :=
    h.laidOut.chain (l := []) rfl
  rw [← h.laidOut.first_eq] at hc
  exact walk_of_chain hc []

/-- The way up from a node of a sound tree ends at a root. -/
theorem chain_ancestors (h : t.Sound) (id : NodeId) :
    t.Chain Node.parent (t.node id).parent (t.ancestors id) := by
  rcases h.ranked with ⟨rank, hr⟩
  rcases h.exists_chain hr id with ⟨ids, hc, hn, hlow, _⟩
  have hanc : t.ancestors id = ids :=
    Tree.follow_eq_of_chain hc (length_le_of_nodup hn fun y hy => (hlow y hy).1)
  exact hanc ▸ hc

theorem isAbove_of_chain {up id : NodeId} {ids : List NodeId}
    (h : t.Chain Node.parent (t.node id).parent ids) :
    isAbove t up id = some (decide (up ∈ id :: ids)) := by
  -- on the way that is left; it may be cut short at any node
  induction ids generalizing id with
  | nil =>
    have hroot : (t.node id).parent = none := h
    refine loop_of_done ?_
    by_cases hid : id = up
    · simp [hid]
    · simp [hid, hroot, Ne.symm hid]
  | cons p ids ih =>
    rcases h with ⟨hp, hc⟩
    by_cases hid : id = up
    · exact loop_of_done (by simp [hid])
    · refine (loop_of_next (by rw [if_neg hid, hp])).trans ((ih hc).trans ?_)
      simp [Ne.symm hid]

/-! ## Edits that end -/

theorem attach_eq (h : t.Sound) (p id : NodeId) : (attach t p id).run = some (t.attach p id) := by
  rw [attach, Tree.attach]
  simp only [isAbove_of_chain (chain_ancestors h p)]
  -- what is refused before the walk is refused alike
  rcases t.requireBranch p with e | ⟨⟩
  · rfl
  rcases t.lookup id with e | n
  · rfl
  show ExceptT.run (if n.parent.isSome = true then _ else _) =
    some (if n.parent.isSome = true then _ else _)
  split
  · rfl
  by_cases hid : id ∈ p :: t.ancestors p
  · rw [if_pos hid, decide_eq_true hid]
    rfl
  · rw [if_neg hid, decide_eq_false hid]
    rfl

theorem release_eq (h : t.Sound) (c : Nat) (id : NodeId) :
    release c t id = some (t.release c id) := by
  rw [release, walk_children h]
  rfl

theorem foldlM_release_eq (h : t.Sound) (c : Nat) {ids : List NodeId}
    (hids : ∀ id ∈ ids, id < t.size) :
    ids.foldlM (release c) t = some (ids.foldl (Tree.release c) t) := by
  -- each step leaves a sound tree of the same size to the next
  induction ids generalizing t with
  | nil => rfl
  | cons id ids ih =>
    rcases Tree.release_spec (c := c) h (hids id List.mem_cons_self) with ⟨hs, hsize, _⟩
    rw [List.foldlM_cons, release_eq h]
    exact ih hs fun i hi => hsize ▸ hids i (List.mem_cons_of_mem id hi)

theorem rollback_eq (h : t.Sound) (c : Nat) : rollback t c = some (t.rollback c) := by
  rw [rollback, foldlM_release_eq h c (t.lt_of_mem_forgotten c)]
  rfl

theorem unlinkChildren_eq (h : t.Sound) (id : NodeId) :
    unlinkChildren t id = some (t.unlinkChildren id) := by
  unfold Tree.unlinkChildren
  -- on the children, of which each round takes the first
  generalize hids : t.children id = ids
  induction ids generalizing t with
  | nil =>
    have hfirst : (t.node id).first = none := by rw [h.laidOut.first_eq, hids, List.head?_nil]
    exact loop_of_done (by rw [hfirst]; rfl)
  | cons c ids ih =>
    have hfirst : (t.node id).first = some c := by rw [h.laidOut.first_eq, hids, List.head?_cons]
    have hc : c < t.size := h.laidOut.lt_of_mem (hids ▸ List.mem_cons_self)
    have hrest : (t.unlink c).children id = ids := by
      rw [(h.laidOut.unlink hc).children_eq id, hids, List.erase_cons_head]
    exact (loop_of_next (by rw [hfirst])).trans (ih (h.unlink hc) hrest)

theorem reset_eq (h : t.Sound) (id : NodeId) : (reset t id).run = some (t.reset id) := by
  rw [reset, Tree.reset, unlinkChildren_eq h]
  rcases t.lookup id with e | n
  · rfl
  · rfl

/-! ## Documents that are used up -/

theorem insertRound_concat (pending : List (Document × NodeId)) (doc : Document) (p : NodeId)
    (t : Tree) : insertRound (pending ++ [(doc, p)], t) =
      match doc.parts with
      | .error e => some (.inl (.error e, t))
      | .ok (kind, value, nodes) =>
        some (.inr (pending ++ nodes.reverse.map (·, t.size),
          (t.makeRoot kind value).2.linkUnder p t.size)) := by
  simp only [insertRound, List.getLast?_concat, List.dropLast_concat]
  rfl

/-- A stack of documents is used up, the last one first. -/
theorem loop_insertRound {fuel : Nat} {pending : List (Document × NodeId)}
    (hfuel : Document.sizes (pending.map Prod.fst) ≤ fuel) :
    loop insertRound (pending.reverse, t) = some (t.insertPending fuel pending) := by
  -- on the fuel, which is enough for as many documents as there are inside those that are pending
  induction fuel generalizing t pending with
  | zero =>
    rcases pending with _ | ⟨⟨doc, p⟩, pending⟩
    · exact loop_of_done rfl
    · have hpos := doc.size_pos
      simp only [List.map_cons, Document.sizes] at hfuel
      omega
  | succ fuel ih =>
    rcases pending with _ | ⟨⟨doc, p⟩, pending⟩
    · exact loop_of_done rfl
    simp only [List.map_cons, Document.sizes] at hfuel
    have hround := insertRound_concat pending.reverse doc p t
    rw [Tree.insertPending, List.reverse_cons]
    cases hd : doc.parts with
    | error e =>
      rw [hd] at hround
      exact loop_of_done hround
    | ok parts =>
      rcases parts with ⟨kind, value, nodes⟩
      rw [hd] at hround
      have hsize := Document.size_of_parts hd
      have hnodes : (nodes.map (·, t.size)).map Prod.fst = nodes := by
        rw [List.map_map]
        exact List.map_id nodes
      have hleft : Document.sizes ((nodes.map (·, t.size) ++ pending).map Prod.fst) ≤ fuel := by
        rw [List.map_append, hnodes, Document.sizes_append]
        omega
      have hstack : pending.reverse ++ nodes.reverse.map (·, t.size) =
          (nodes.map (·, t.size) ++ pending).reverse := by
        rw [List.reverse_append, List.map_reverse]
      exact (loop_of_next (hstack ▸ hround)).trans (ih hleft)

theorem insertDocument_eq (t : Tree) (doc : Document) :
    insertDocument t doc = some (t.insertDocument doc) := by
  rw [insertDocument, Tree.insertDocument]
  cases hd : doc.parts with
  | error e => rfl
  | ok parts =>
    rcases parts with ⟨kind, value, nodes⟩
    have hfuel : Document.sizes ((nodes.map (·, t.size)).map Prod.fst) ≤ doc.size := by
      rw [List.map_map, Document.size_of_parts hd]
      exact (congrArg Document.sizes (List.map_id nodes)).le.trans (Nat.le_add_left _ 1)
    have hloop := loop_insertRound (t := (t.makeRoot kind value).2) hfuel
    rw [← List.map_reverse] at hloop
    show (loop insertRound (nodes.reverse.map (·, t.size), (t.makeRoot kind value).2)).bind _ = _
    rw [hloop]
    rfl

theorem insertJson_eq (h : t.Sound) (text : String) :
    insertJson t text = some (t.insertJson text) := by
  rw [insertJson, Tree.insertJson]
  cases Document.read? text with
  | none => rfl
  | some doc =>
    have hs := h.insertDocument doc
    simp only [insertDocument_eq]
    generalize t.insertDocument doc = out at hs ⊢
    rcases out with ⟨e | root, t'⟩
    · show (rollback t' t.checkpoint).bind _ = _
      rw [rollback_eq hs]
      rfl
    · rfl

end PegKit.Unbounded

end
