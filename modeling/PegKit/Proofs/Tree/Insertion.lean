import PegKit.Proofs.Tree.Rollback
import PegKit.Tree.Document

/-! # Inserted documents

* `insertPending_sound`: the nodes that wait for children have no value, so each new node may be
  linked under the one that it waits for.
* `Sound.insertJson`: a document keeps a tree sound, whether it is refused or not.
-/

namespace PegKit

namespace Document

theorem size_pos (doc : Document) : 0 < doc.size := by
  rcases doc with ⟨_, _, _ | nodes⟩
  · exact Nat.one_pos
  · exact Nat.lt_of_lt_of_le Nat.one_pos (Nat.le_add_right 1 _)

/-- A document has one node more than those of its list. -/
theorem size_of_parts {doc : Document} {kind : Kind} {value : String} {nodes : List Document}
    (h : doc.parts = .ok (kind, value, nodes)) : doc.size = 1 + sizes nodes := by
  rcases doc with ⟨_, _ | _, _ | _⟩
  all_goals cases h
  all_goals rfl

theorem add_sizes_cons (n : Nat) (d : Document) (ds : List Document) :
    n + sizes (d :: ds) = n + sizes ds + d.size := by
  rw [sizes]
  omega

theorem sizes_append (ds es : List Document) : sizes (ds ++ es) = sizes ds + sizes es := by
  induction ds with
  | nil => exact (Nat.zero_add _).symm
  | cons d ds ih => rw [List.cons_append, sizes, sizes, ih, Nat.add_assoc]

end Document

namespace Tree

variable {t : Tree} {p : NodeId}

/-- A document that has a list of nodes has no value. -/
theorem parts_value {doc : Document} {kind : Kind} {value : String} {nodes : List Document}
    (h : doc.parts = .ok (kind, value, nodes)) (hn : nodes ≠ []) : value = "" := by
  rcases doc with ⟨k, v, ns⟩
  cases v with
  | none =>
    cases h
    rfl
  | some v =>
    cases ns with
    | none =>
      cases h
      exact absurd rfl hn
    | some ns => cases h

theorem size_linkNew {kind : Kind} {value : String} :
    ((t.makeRoot kind value).2.linkUnder p t.size).size = t.size + 1 := by
  rw [size_linkUnder, size_makeRoot]

theorem value_linkNew (h : t.Sound) (hp : p < t.size) {kind : Kind} {value : String}
    (j : NodeId) : (((t.makeRoot kind value).2.linkUnder p t.size).node j).value =
      if j = t.size then value else (t.node j).value := by
  have hp' : p < (t.makeRoot kind value).2.size := size_makeRoot ▸ Nat.lt_succ_of_lt hp
  have hc' : t.size < (t.makeRoot kind value).2.size := size_makeRoot ▸ Nat.lt_succ_self t.size
  rw [node_linkUnder hp' hc' fun l hl => (h.makeRoot kind value).last_lt hp' hl]
  show ((t.makeRoot kind value).2.node j).value = _
  rw [node_makeRoot]
  split <;> rfl

/-- Every node that waits for children is in the tree and has no value. -/
def Waiting (t : Tree) (pending : List (Document × NodeId)) : Prop :=
  ∀ d ∈ pending, d.2 < t.size ∧ (t.node d.2).value = ""

theorem Waiting.linkNew {pending : List (Document × NodeId)} {doc : Document} {kind : Kind}
    {value : String} {nodes : List Document} (h : t.Sound) (hw : t.Waiting ((doc, p) :: pending))
    (hd : doc.parts = .ok (kind, value, nodes)) :
    ((t.makeRoot kind value).2.linkUnder p t.size).Waiting
      (nodes.map (·, t.size) ++ pending) := by
  have hp : p < t.size := (hw (doc, p) List.mem_cons_self).1
  intro d hmem
  rw [size_linkNew, value_linkNew h hp]
  rcases List.mem_append.mp hmem with hmem | hmem
  · obtain ⟨n, hn, rfl⟩ := List.mem_map.mp hmem
    exact ⟨Nat.lt_succ_self _, by rw [if_pos rfl, parts_value hd (List.ne_nil_of_mem hn)]⟩
  · obtain ⟨hlt, hv⟩ := hw d (List.mem_cons_of_mem _ hmem)
    exact ⟨Nat.lt_succ_of_lt hlt, by rw [if_neg (Nat.ne_of_lt hlt), hv]⟩

/-- The root of a document waits for the nodes of its list. -/
theorem waiting_makeRoot {doc : Document} {kind : Kind} {value : String} {nodes : List Document}
    (hd : doc.parts = .ok (kind, value, nodes)) :
    (t.makeRoot kind value).2.Waiting (nodes.map (·, t.size)) := by
  intro d hmem
  rcases List.mem_map.mp hmem with ⟨n, hn, rfl⟩
  rw [size_makeRoot, node_makeRoot, if_pos rfl]
  exact ⟨Nat.lt_succ_self _, parts_value hd (List.ne_nil_of_mem hn)⟩

theorem insertPending_sound (h : t.Sound) {pending : List (Document × NodeId)}
    (hw : t.Waiting pending) (fuel : Nat) : (insertPending fuel pending t).2.Sound := by
  -- on the fuel; what waits is in the tree and has no value, before each node and after it
  induction fuel generalizing t pending with
  | zero => exact h
  | succ fuel ih =>
    match pending with
    | [] => exact h
    | (doc, p) :: pending =>
      rcases hw (doc, p) List.mem_cons_self with ⟨hp, hv⟩
      unfold insertPending
      cases hd : doc.parts with
      | error e => exact h
      | ok parts =>
        rcases parts with ⟨kind, value, nodes⟩
        exact ih (h.linkNew hp hv kind value) (Waiting.linkNew h hw hd)

/-- A document whose root is accepted: the root is made, and its nodes wait for it. -/
theorem insertDocument_eq {doc : Document} {kind : Kind} {value : String} {nodes : List Document}
    (hd : doc.parts = .ok (kind, value, nodes)) : t.insertDocument doc =
      let out := insertPending doc.size (nodes.map (·, t.size)) (t.makeRoot kind value).2
      (out.1.map fun _ => t.size, out.2) := by
  rw [insertDocument, hd]
  rfl

namespace Sound

theorem insertDocument (h : t.Sound) (doc : Document) : (t.insertDocument doc).2.Sound := by
  cases hd : doc.parts with
  | error e =>
    rw [Tree.insertDocument, hd]
    exact h
  | ok parts =>
    rcases parts with ⟨kind, value, nodes⟩
    rw [insertDocument_eq hd]
    exact insertPending_sound (h.makeRoot kind value) (waiting_makeRoot hd) doc.size

theorem insertJson (h : t.Sound) (text : String) : (t.insertJson text).2.Sound := by
  rw [Tree.insertJson]
  cases Document.read? text with
  | none => exact h
  | some doc =>
    have hs := h.insertDocument doc
    dsimp only
    generalize t.insertDocument doc = out at hs ⊢
    rcases out with ⟨e | root, t'⟩
    · exact hs.rollback t.checkpoint
    · exact hs

end Sound

end Tree

end PegKit
