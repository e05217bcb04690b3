import PegKit.Proofs.Tree.Sound
import PegKit.Tree.Clone

/-! # The walk by level

* `Tree.Gathered` says of a list of nodes that it is a node with everything below it.
* `gathered_byLevel`: the walk by level of a sound tree lists that, each node once.
* `Sound.byLevel_eq_levels`: it lists the levels one after the other, each from left to right.
-/

namespace PegKit.Tree

/-- A walk from `root` has visited the nodes `seen`, and `queue` are the ones that it has met and
not visited. -/
structure Frontier (t : Tree) (root : NodeId) (seen queue : List NodeId) : Prop where
  live : ∀ x ∈ seen ++ queue, x < t.size
  nodup : (seen ++ queue).Nodup
  /-- Each node was met under a node visited before. -/
  met : ∀ x ∈ seen ++ queue, x = root ∨ ∃ p ∈ seen, (t.node x).parent = some p
  under : ∀ x ∈ seen ++ queue, t.Under x root
  closed : ∀ x ∈ seen, ∀ c ∈ t.children x, c ∈ seen ++ queue

/-- The list has `root` in front and nothing is below its nodes but its nodes. -/
structure Gathered (t : Tree) (root : NodeId) (order : List NodeId) : Prop where
  head : order.head? = some root
  live : ∀ x ∈ order, x < t.size
  nodup : order.Nodup
  met : ∀ x ∈ order, x = root ∨ ∃ p ∈ order, (t.node x).parent = some p
  under : ∀ x ∈ order, t.Under x root
  closed : ∀ x ∈ order, ∀ c ∈ t.children x, c ∈ order

variable {t : Tree} {root id : NodeId} {seen queue : List NodeId}

theorem Frontier.start (hroot : root < t.size) : t.Frontier root [] [root] where
  live := fun x hx => List.mem_singleton.mp hx ▸ hroot
  nodup := List.nodup_cons.mpr ⟨List.not_mem_nil, List.nodup_nil⟩
  met := fun x hx => Or.inl (List.mem_singleton.mp hx)
  under := by
    intro x hx
    rw [List.mem_singleton.mp hx]
    exact .refl root
  closed := nofun

/-- A visit meets the children of a node for the first time. -/
theorem Frontier.visit (h : t.Sound) (hw : t.Frontier root seen (id :: queue)) :
    t.Frontier root (seen ++ [id]) (queue ++ t.children id) := by
  have happ : seen ++ [id] ++ (queue ++ t.children id) =
      seen ++ id :: queue ++ t.children id := by simp
  have hid : id ∈ seen ++ id :: queue := List.mem_append_cons_self
  have hparent : ∀ {x}, x ∈ t.children id → (t.node x).parent = some id :=
    fun hx => h.mem_children_iff.mp hx
  constructor
  case live =>
    rw [happ]
    intro x hx
    rcases List.mem_append.mp hx with hx | hx
    · exact hw.live x hx
    · exact h.laidOut.lt_of_mem hx
  case nodup =>
    rw [happ]
    refine List.nodup_append.mpr ⟨hw.nodup, h.laidOut.nodup id, ?_⟩
    rintro x hx y hy rfl
    have hp := hparent hy
    rcases hw.met x hx with rfl | ⟨p, hps, hp'⟩
    · -- the node visited is below the root, not above it
      exact h.acyclic hp (hw.under id hid)
    · rw [hp] at hp'
      cases hp'
      exact (List.nodup_append.mp hw.nodup).2.2 id hps id List.mem_cons_self rfl
  case met =>
    rw [happ]
    intro x hx
    rcases List.mem_append.mp hx with hx | hx
    · rcases hw.met x hx with hroot | ⟨p, hps, hp⟩
      · exact Or.inl hroot
      · exact Or.inr ⟨p, List.mem_append_left _ hps, hp⟩
    · exact Or.inr ⟨id, List.mem_append_right _ List.mem_cons_self, hparent hx⟩
  case under =>
    rw [happ]
    intro x hx
    rcases List.mem_append.mp hx with hx | hx
    · exact hw.under x hx
    · exact .step (hparent hx) (hw.under id hid)
  case closed =>
    rw [happ]
    -- a node visited before has its children already, and the one visited now gets them
    intro x hx c hc
    rcases List.mem_append.mp hx with hx | hx
    · exact List.mem_append_left _ (hw.closed x hx c hc)
    · rw [List.mem_singleton.mp hx] at hc
      exact List.mem_append_right _ hc

/-- Each visit uses up one unit of fuel and no node is visited twice, so the fuel lasts. -/
theorem visitQueue_spec (h : t.Sound) {fuel : Nat} (hf : t.size ≤ seen.length + fuel)
    (hw : t.Frontier root seen queue) :
    t.Frontier root (seen ++ t.visitQueue fuel queue) [] := by
  induction fuel generalizing seen queue with
  | zero =>
    -- without fuel all nodes have been visited, so nothing can wait
    have hle := length_le_of_nodup hw.nodup hw.live
    have hq : queue = [] := by
      rw [List.length_append] at hle
      exact List.length_eq_zero_iff.mp (by omega)
    rw [hq] at hw
    rw [visitQueue, List.append_nil]
    exact hw
  | succ fuel ih =>
    cases queue with
    | nil =>
      rw [visitQueue, List.append_nil]
      · exact hw
      · nofun
    | cons id queue =>
      have hlen : t.size ≤ (seen ++ [id]).length + fuel := by
        rw [List.length_append, List.length_singleton]
        omega
      have hv := ih hlen (hw.visit h)
      rwa [List.append_assoc, List.singleton_append] at hv

theorem head?_byLevel (hroot : root < t.size) : (t.byLevel root).head? = some root := by
  cases hn : t.size with
  | zero =>
    rw [hn] at hroot
    exact absurd hroot (Nat.not_lt_zero root)
  | succ n =>
    rw [byLevel, hn]
    rfl

theorem gathered_byLevel (h : t.Sound) (hroot : root < t.size) :
    t.Gathered root (t.byLevel root) := by
  have hlen : t.size ≤ ([] : List NodeId).length + t.size := Nat.le_add_left _ _
  have hw := visitQueue_spec h hlen (.start hroot)
  have happ : [] ++ t.visitQueue t.size [root] ++ [] = t.byLevel root := by
    rw [List.nil_append, List.append_nil]
    rfl
  rcases hw with ⟨hlive, hnodup, hmet, hunder, hclosed⟩
  rw [happ] at hlive hnodup hmet hunder hclosed
  exact ⟨head?_byLevel hroot, hlive, hnodup, hmet, hunder, hclosed⟩

/-- What is gathered is everything below the root. -/
theorem Gathered.mem_iff (h : t.Sound) {order : List NodeId} (hg : t.Gathered root order)
    {x : NodeId} : x ∈ order ↔ t.Under x root := by
  constructor
  · exact hg.under x
  · intro hu
    -- on the way up
    induction hu with
    | refl => exact List.mem_of_head? hg.head
    | step hp _ ih => exact hg.closed _ (ih hg) _ (h.mem_children_iff.mpr hp)

/-! ## Level by level -/

/-- The nodes `n` steps below a node, from left to right. -/
def level (t : Tree) (id : NodeId) : (n : Nat) → List NodeId
  | 0 => [id]
  | n + 1 => (t.level id n).flatMap t.children

/-- The first `n` levels below a node, one after the other. -/
def levelsTo (t : Tree) (id : NodeId) (n : Nat) : List NodeId :=
  (List.range n).flatMap (t.level id)

/-- The node and its descendants in breadth-first order. No tree has more levels than nodes. -/
def levels (t : Tree) (id : NodeId) : List NodeId :=
  t.levelsTo id t.size

theorem levelsTo_succ (t : Tree) (id : NodeId) (n : Nat) :
    t.levelsTo id (n + 1) = t.levelsTo id n ++ t.level id n := by
  rw [levelsTo, List.range_succ, List.flatMap_append, List.flatMap_singleton]
  rfl

/-- While it visits what is in the queue, the walk queues the children of all that. -/
theorem visitQueue_append (fuel : Nat) (queue rest : List NodeId) :
    t.visitQueue (fuel + queue.length) (queue ++ rest) =
      queue ++ t.visitQueue fuel (rest ++ queue.flatMap t.children) := by
  induction queue generalizing rest with
  | nil =>
    rw [List.flatMap_nil, List.append_nil]
    rfl
  | cons id queue ih =>
    rw [List.length_cons, ← Nat.add_assoc, List.cons_append, visitQueue, List.append_assoc, ih,
      List.flatMap_cons, List.append_assoc, List.cons_append]

/-- So it visits a level, and then the level below. -/
theorem visitQueue_levelsTo (fuel n : Nat) :
    t.visitQueue (fuel + (t.levelsTo id n).length) [id] =
      t.levelsTo id n ++ t.visitQueue fuel (t.level id n) := by
  induction n generalizing fuel with
  | zero => rfl
  | succ n ih =>
    have hv := visitQueue_append (t := t) fuel (t.level id n) []
    rw [List.append_nil, List.nil_append] at hv
    have hlen : fuel + (t.levelsTo id (n + 1)).length =
        fuel + (t.level id n).length + (t.levelsTo id n).length := by
      rw [levelsTo_succ, List.length_append]
      omega
    rw [hlen, ih, hv, ← List.append_assoc, levelsTo_succ]
    rfl

/-- A walk that visits all that it has queued has met all children of that. -/
theorem Frontier.visitAll (h : t.Sound) {rest : List NodeId}
    (hw : t.Frontier root seen (queue ++ rest)) :
    t.Frontier root (seen ++ queue) (rest ++ queue.flatMap t.children) := by
  induction queue generalizing seen rest with
  | nil =>
    rw [List.flatMap_nil, List.append_nil, List.append_nil]
    exact hw
  | cons id queue ih =>
    have hv : t.Frontier root (seen ++ [id]) (queue ++ (rest ++ t.children id)) := by
      rw [← List.append_assoc]
      exact hw.visit h
    have hall := ih hv
    rwa [List.append_assoc, List.append_assoc, List.singleton_append, ← List.flatMap_cons] at hall

theorem Frontier.levelsTo (h : t.Sound) (hroot : root < t.size) (n : Nat) :
    t.Frontier root (t.levelsTo root n) (t.level root n) := by
  induction n with
  | zero => exact .start hroot
  | succ n ih =>
    have hw : t.Frontier root (t.levelsTo root n) (t.level root n ++ []) := by
      rwa [List.append_nil]
    rw [levelsTo_succ]
    exact hw.visitAll h

/-- A level that is not empty has as many levels above it, and none of these is empty. -/
theorem le_length_levelsTo (t : Tree) (id : NodeId) (n : Nat) (hne : t.level id n ≠ []) :
    n ≤ (t.levelsTo id n).length := by
  induction n with
  | zero => exact Nat.zero_le _
  | succ n ih =>
    have hup : t.level id n ≠ [] := by
      intro hnil
      rw [level, hnil] at hne
      exact hne rfl
    rw [levelsTo_succ, List.length_append]
    exact Nat.add_le_add (ih hup) (List.length_pos_iff.mpr hup)

namespace Sound

theorem level_size (h : t.Sound) (hid : id < t.size) : t.level id t.size = [] := by
  have hw := Frontier.levelsTo h hid t.size
  have hle := length_le_of_nodup hw.nodup hw.live
  rw [List.length_append] at hle
  -- one more level would need one more node
  apply Decidable.byContradiction
  intro hne
  have hge := le_length_levelsTo t id t.size hne
  have hpos := List.length_pos_iff.mpr hne
  omega

/-- The walk by level lists the levels one after the other, with any bound that is large enough. -/
theorem visitQueue_eq_levels (h : t.Sound) (hid : id < t.size) {fuel : Nat} (hf : t.size ≤ fuel) :
    t.visitQueue fuel [id] = t.levels id := by
  have hw := Frontier.levelsTo h hid t.size
  have hle := length_le_of_nodup hw.nodup hw.live
  rw [h.level_size hid, List.append_nil] at hle
  have hv := @visitQueue_levelsTo t id (fuel - (t.levelsTo id t.size).length) t.size
  rw [Nat.sub_add_cancel (Nat.le_trans hle hf), h.level_size hid] at hv
  rw [hv]
  cases fuel - (t.levelsTo id t.size).length <;> exact List.append_nil _

theorem byLevel_eq_levels (h : t.Sound) (hid : id < t.size) : t.byLevel id = t.levels id :=
  h.visitQueue_eq_levels hid (Nat.le_refl _)

end Sound

end PegKit.Tree
