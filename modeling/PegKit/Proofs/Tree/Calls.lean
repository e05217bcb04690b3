import PegKit.Proofs.Tree.Copies
import PegKit.Proofs.Tree.Insertion

/-! # Calls on a tree

* `Tree.Call` lists the operations that change a tree, and `Call.run` is what each leaves, refused
  or not.
* `Call.run_sound` is the step: a call keeps a tree sound.
* `Reachable.sound`: so every tree that calls lead to is sound.
-/

namespace PegKit.Tree

/-- An operation with its arguments. -/
inductive Call where
  | makeRoot (kind : Kind) (value : String)
  | addChild (parent : NodeId) (kind : Kind) (value : String)
  | attach (parent child : NodeId)
  | detach (id : NodeId)
  | adopt (receiver donor : NodeId)
  | clone (id : NodeId)
  | become (target source : NodeId)
  | reset (id : NodeId)
  | setKind (id : NodeId) (kind : Kind)
  | setValue (id : NodeId) (value : String)
  | insertJson (text : String)
  | rollback (checkpoint : Nat)
deriving Repr

/-- The outcome of an edit, or the tree as it was if the edit was refused. -/
def orKeep (t : Tree) : Except TreeError Tree → Tree
  | .ok u => u
  | .error _ => t

@[simp] theorem orKeep_ok (t u : Tree) : t.orKeep (.ok u) = u := rfl

namespace Call

/-- The nodes that a call names. -/
def ids : Call → List NodeId
  | makeRoot _ _ => []
  | addChild parent _ _ => [parent]
  | attach parent child => [parent, child]
  | detach id => [id]
  | adopt receiver donor => [receiver, donor]
  | clone id => [id]
  | become target source => [target, source]
  | reset id => [id]
  | setKind id _ => [id]
  | setValue id _ => [id]
  | insertJson _ => []
  | rollback _ => []

/-- The tree has every node that the call names. -/
def Live (c : Call) (t : Tree) : Prop :=
  ∀ id ∈ c.ids, id < t.size

instance (c : Call) (t : Tree) : Decidable (c.Live t) :=
  inferInstanceAs (Decidable (∀ id ∈ c.ids, id < t.size))

/-- What a call leaves. -/
def run : Call → Tree → Tree
  | makeRoot kind value, t => (t.makeRoot kind value).2
  | addChild parent kind value, t => t.orKeep ((t.addChild parent kind value).map (·.2))
  | attach parent child, t => t.orKeep (t.attach parent child)
  | detach id, t => t.orKeep (t.detach id)
  | adopt receiver donor, t => t.orKeep (t.adopt receiver donor)
  | clone id, t => t.orKeep ((t.clone id).map (·.2))
  | become target source, t => t.orKeep (t.become target source)
  | reset id, t => t.orKeep (t.reset id)
  | setKind id kind, t => t.orKeep (t.setKind id kind)
  | setValue id value, t => t.orKeep (t.setValue id value)
  | insertJson text, t => (t.insertJson text).2
  | rollback checkpoint, t => t.rollback checkpoint

end Call

/-- The trees that calls lead to, each call with nodes that the tree has at the time. -/
inductive Reachable : Tree → Prop
  | empty : Reachable {}
  | call {t : Tree} (c : Call) (h : Reachable t) (live : c.Live t) : Reachable (c.run t)

/-! ## Soundness -/

theorem sound_empty : ({} : Tree).Sound := by
  have hnode : ∀ j, ({} : Tree).node j = {} := fun j => node_of_le (Nat.zero_le j)
  have hl : ({} : Tree).LaidOut fun _ => [] := by
    constructor
    case ends =>
      intro p hp
      exact absurd hp (Nat.not_lt_zero p)
    case place =>
      intro p l c r hlr
      simp at hlr
    case roots =>
      intro c hc
      exact absurd hc (Nat.not_lt_zero c)
    case owned =>
      intro c hc
      exact absurd hc (Nat.not_lt_zero c)
    case nodup =>
      intro _
      exact List.nodup_nil
    case dead =>
      intro _ _
      rfl
  refine .of_laidOut hl ⟨fun _ => 0, ?_⟩ fun _ _ => rfl
  intro x p hp
  rw [hnode] at hp
  cases hp

theorem orKeep_sound {t : Tree} (h : t.Sound) {e : Except TreeError Tree}
    (he : ∀ u, e = .ok u → u.Sound) : (t.orKeep e).Sound := by
  cases e with
  | ok u => exact he u rfl
  | error _ => exact h

/-- The same for an edit that also returns a node. -/
theorem orKeep_map_sound {t : Tree} (h : t.Sound) {e : Except TreeError (NodeId × Tree)}
    (he : ∀ id u, e = .ok (id, u) → u.Sound) : (t.orKeep (e.map (·.2))).Sound := by
  cases e with
  | ok out => exact he out.1 out.2 rfl
  | error _ => exact h

/-- A call keeps a tree sound, one case for each operation. -/
theorem Call.run_sound {t : Tree} (h : t.Sound) {c : Call} (hl : c.Live t) : (c.run t).Sound := by
  cases c with
  | makeRoot kind value => exact h.makeRoot kind value
  | addChild parent kind value =>
    have hp := hl parent List.mem_cons_self
    exact orKeep_map_sound h fun _ _ he => h.addChild hp he
  | attach parent child =>
    have hp := hl parent List.mem_cons_self
    have hc := hl child (List.mem_cons_of_mem parent List.mem_cons_self)
    exact orKeep_sound h fun _ he => h.attach hp hc he
  | detach id =>
    have hid := hl id List.mem_cons_self
    exact orKeep_sound h fun _ he => h.detach hid he
  | adopt receiver donor =>
    have hr := hl receiver List.mem_cons_self
    have hd := hl donor (List.mem_cons_of_mem receiver List.mem_cons_self)
    exact orKeep_sound h fun _ he => h.adopt hr hd he
  | clone id =>
    have hid := hl id List.mem_cons_self
    exact orKeep_map_sound h fun _ _ he => h.clone hid he
  | become target source =>
    have ht := hl target List.mem_cons_self
    have hs := hl source (List.mem_cons_of_mem target List.mem_cons_self)
    exact orKeep_sound h fun _ he => h.become ht hs he
  | reset id =>
    have hid := hl id List.mem_cons_self
    exact orKeep_sound h fun _ he => h.reset hid he
  | setKind id kind =>
    have hid := hl id List.mem_cons_self
    exact orKeep_sound h fun _ he => h.setKind hid he
  | setValue id value =>
    have hid := hl id List.mem_cons_self
    exact orKeep_sound h fun _ he => h.setValue hid he
  | insertJson text => exact h.insertJson text
  | rollback checkpoint => exact h.rollback checkpoint

/-- So does every run of calls. -/
theorem Reachable.sound {t : Tree} (h : Reachable t) : t.Sound := by
  -- on the calls, from the empty tree
  induction h with
  | empty => exact sound_empty
  | call c _ live ih => exact c.run_sound ih live

end PegKit.Tree
