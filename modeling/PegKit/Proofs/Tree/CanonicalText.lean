import Mathlib.Data.List.Forall2
import PegKit.Proofs.Tree.Serialization
import PegKit.Proofs.Tree.Traversal

/-! # The canonical text of a node

What the writer with its stack puts out, said by recursion on the tree.

* `Tree.HasText`: the text of a node, from its kind, its value and the texts of its children.
* `Unbounded.toJson` is the writer as a loop, and `Unbounded.toJson_eq` says that it ends.
* `Tree.AgreeBelow`: two trees agree on a node and on what is below it, and maybe nowhere else.
* `WellFormed.toJson_hasText`: every node has one text, and that is what is written.
-/

namespace PegKit

namespace Tree

/-! ## Texts by recursion -/

/-- The node has this text. -/
inductive HasText (t : Tree) : NodeId → String → Prop
  | intro {id : NodeId} {texts : List String}
      (children : List.Forall₂ (HasText t) (t.children id) texts) :
      HasText t id (objectText Json.quoteCanonical (t.node id).kind (t.node id).value texts)

variable {t u : Tree} {id : NodeId}

theorem hasText_iff_children {s : String} : t.HasText id s ↔
    ∃ texts, List.Forall₂ t.HasText (t.children id) texts ∧
      s = objectText Json.quoteCanonical (t.node id).kind (t.node id).value texts := by
  constructor
  · rintro ⟨hchildren⟩
    exact ⟨_, hchildren, rfl⟩
  · rintro ⟨texts, hchildren, rfl⟩
    exact .intro hchildren

/-- Where each node has one text only, so has a list of nodes. -/
theorem forall₂_iff_eq_map {R : NodeId → String → Prop} {text : NodeId → String}
    {cs : List NodeId} (h : ∀ c ∈ cs, ∀ s, R c s ↔ s = text c) (texts : List String) :
    List.Forall₂ R cs texts ↔ texts = cs.map text := by
  induction cs generalizing texts with
  | nil => exact List.forall₂_nil_left_iff
  | cons c cs ih =>
    rcases List.forall_mem_cons.mp h with ⟨hc, hcs⟩
    rw [List.forall₂_cons_left_iff, List.map_cons]
    constructor
    · rintro ⟨s, more, hs, hmore, rfl⟩
      rw [(hc s).mp hs, (ih hcs more).mp hmore]
    · rintro rfl
      exact ⟨_, _, (hc _).mpr rfl, (ih hcs _).mpr rfl, rfl⟩

/-- A node has the text of its shape, and no other. -/
theorem Sound.hasText_iff (h : t.Sound) {s : String} :
    t.HasText id s ↔ s = (t.shape id).text Json.quoteCanonical := by
  induction id using h.induction_down generalizing s with
  | step id ih =>
    have hchildren := forall₂_iff_eq_map fun c hc s => ih c hc (s := s)
    rw [hasText_iff_children, h.text_shape]
    constructor
    · rintro ⟨texts, htexts, rfl⟩
      rw [(hchildren texts).mp htexts]
    · intro hs
      exact ⟨_, (hchildren _).mpr rfl, hs⟩

/-! ## What the text depends on -/

/-- The nodes at and below `id` hold the same and have the same children. What is beside them and
above them may differ. -/
def AgreeBelow (t u : Tree) (id : NodeId) : Prop :=
  ∀ x, t.Under x id → (u.node x).kind = (t.node x).kind ∧ (u.node x).value = (t.node x).value ∧
    u.children x = t.children x

theorem AgreeBelow.child (h : t.Sound) (ha : AgreeBelow t u id) {c : NodeId}
    (hc : c ∈ t.children id) : AgreeBelow t u c :=
  fun x hx => ha x (hx.trans (.step (h.mem_children_iff.mp hc) (.refl id)))

theorem AgreeBelow.shape_eq (ht : t.Sound) (hu : u.Sound) (ha : AgreeBelow t u id) :
    u.shape id = t.shape id := by
  induction id using ht.induction_down with
  | step id ih =>
    rcases ha id (.refl id) with ⟨hkind, hvalue, hchildren⟩
    rw [ht.shape_eq, hu.shape_eq, hkind, hvalue, hchildren,
      List.map_congr_left fun c hc => ih c hc (ha.child ht hc)]

end Tree

/-! ## Writing without a bound -/

noncomputable section

namespace Unbounded

/-- A round carries out the step on top of the stack. -/
def writeRound (t : Tree) (top : NodeId) :
    List Tree.Step × String → Option (String ⊕ List Tree.Step × String)
  | ([], out) => some (.inl out)
  | (.leave :: steps, out) => some (.inr (steps, out ++ "]\x7d"))
  | (.enter id :: steps, out) => do
    let n := t.node id
    let out := out ++ Tree.openText (id ≠ top && n.left.isSome) n
    if n.last.isNone then return .inr (steps, out ++ "\x7d")
    else
      let children ← walk t Node.left [] n.last
      return .inr (children.foldl (fun st c => .enter c :: st) (.leave :: steps), out ++ ",\"N\":[")

/-- The canonical JSON text of a node and its descendants. -/
def toJson (t : Tree) (id : NodeId) : ExceptT TreeError Option String := do
  let _ ← t.lookup id
  ExceptT.lift (loop (writeRound t id) ([.enter id], ""))

variable {t : Tree} {id : NodeId}

theorem append_ne_empty {a b : String} (hb : b ≠ "") : a ++ b ≠ "" :=
  fun h => hb (String.append_eq_empty_iff.mp h).2

theorem append_ne_self {out s : String} (hs : s ≠ "") : out ++ s ≠ out := by
  intro h
  exact hs (String.append_right_inj out |>.mp (h.trans String.append_empty.symm))

/-- Every step puts something out. -/
theorem bounds_writeSteps (h : t.Sound) (top : NodeId) :
    Bounds (writeRound t top) Prod.snd fun n a => t.writeSteps top n a.1 a.2 := by
  constructor
  case zero =>
    rintro ⟨steps, out⟩
    rw [Tree.writeSteps]
  case succ =>
    rintro ⟨_ | ⟨_ | _, steps⟩, out⟩
    case nil =>
      refine .inl ⟨rfl, fun n => ?_⟩
      cases n with
      | zero => rw [Tree.writeSteps]
      | succ n =>
        rw [Tree.writeSteps]
        exact Nat.succ_ne_zero n
    case cons.enter id =>
      cases hlast : (t.node id).last.isNone with
      | true =>
        refine .inr ⟨_, by rw [writeRound, hlast]; rfl, ?_, fun n => ?_⟩
        · rw [String.append_assoc]
          exact append_ne_self (append_ne_empty (by decide))
        · rw [Tree.writeSteps, hlast]
          rfl
      | false =>
        refine .inr ⟨_, by rw [writeRound, hlast, walk_childrenFromLast h]; rfl, ?_, fun n => ?_⟩
        · rw [String.append_assoc]
          exact append_ne_self (append_ne_empty (by decide))
        · rw [Tree.writeSteps, hlast]
          rfl
    case cons.leave =>
      refine .inr ⟨_, rfl, append_ne_self (by decide), fun n => ?_⟩
      rw [Tree.writeSteps]

/-- One more step would put out nothing, so the writer ends. -/
theorem toJson_eq (h : t.Sound) (hid : id < t.size) : (toJson t id).run = some (t.toJson id) := by
  have hmore : t.writeSteps id (2 * t.size + 1) [.enter id] "" =
      t.writeSteps id (2 * t.size) [.enter id] "" := by
    rw [h.writeSteps_eq hid (Nat.le_succ _), h.writeSteps_eq hid (Nat.le_refl _)]
  have hloop := (bounds_writeSteps h id).loop_eq (a := ([.enter id], "")) hmore
  rw [toJson, Tree.toJson, Tree.lookup_of_lt hid]
  show (ExceptT.lift (loop (writeRound t id) ([.enter id], ""))).run = _
  rw [hloop]
  rfl

end Unbounded

end

namespace Tree

variable {t : Tree} {id : NodeId}

/-- From any node of a well-formed tree the writer ends, and it writes the one text that the node
has by recursion on its children. That text is the same in every well-formed tree that has the same
below the node, whatever is beside the node and above it. -/
theorem WellFormed.toJson_hasText (h : t.WellFormed) (hid : id < t.size) :
    ∃ text, (Unbounded.toJson t id).run = some (.ok text) ∧ t.toJson id = .ok text ∧
      (∀ s, t.HasText id s ↔ s = text) ∧
      ∀ u : Tree, u.WellFormed → id < u.size → AgreeBelow t u id → u.toJson id = .ok text := by
  have hs := h.sound
  have hjson := hs.toJson_eq hid
  refine ⟨_, ?_, hjson, fun s => hs.hasText_iff, fun u hu hid' ha => ?_⟩
  · rw [Unbounded.toJson_eq hs hid, hjson]
  · rw [hu.sound.toJson_eq hid', ha.shape_eq hs hu.sound]

/-- A node with a sibling on its left is written without a comma, and with nothing of the sibling.
When it is detached, its text stays. -/
theorem toJson_hasText_inner :
    let t := (Call.addChild 2 1 "b\\").run ((Call.addChild 0 3 "").run
      ((Call.addChild 0 1 "a").run ((Call.makeRoot 7 "").run {})))
    let u := (Call.detach 2).run t
    let text := "\x7b\"T\":3,\"N\":[\x7b\"T\":1,\"V\":\"b\\\\\"\x7d]\x7d"
    t.WellFormed ∧ 2 < t.size ∧ (t.node 2).left = some 1 ∧ t.toJson 2 = .ok text ∧
      t.HasText 2 text ∧ u.WellFormed ∧ 2 < u.size ∧ AgreeBelow t u 2 ∧ (u.node 2).left = none ∧
      u.toJson 2 = .ok text := by
  intro t u text
  have h0 := Reachable.empty.call (.makeRoot 7 "") (by decide)
  have h1 := h0.call (.addChild 0 1 "a") (by decide)
  have h2 := h1.call (.addChild 0 3 "") (by decide)
  have ht : Reachable t := h2.call (.addChild 2 1 "b\\") (by decide)
  have hu : Reachable u := ht.call (.detach 2) (by decide)
  have htw := ht.sound.wellFormed
  have huw := hu.sound.wellFormed
  have hlt : 2 < t.size := by decide
  have hbelow : ∀ x, t.Under x 2 → x = 2 ∨ x = 3 := by
    intro x hx
    have hmem := (ht.sound.mem_preorder_iff hlt).mpr hx
    rw [show t.preorder 2 = [2, 3] by decide +kernel] at hmem
    simpa using hmem
  have hagree : AgreeBelow t u 2 := by
    intro x hx
    rcases hbelow x hx with rfl | rfl
    · decide +kernel
    · decide +kernel
  have hjson : t.toJson 2 = .ok text := by decide +kernel
  rcases htw.toJson_hasText hlt with ⟨text', _, hjson', htext, hu'⟩
  obtain rfl : text' = text := Except.ok.inj (hjson'.symm.trans hjson)
  exact ⟨htw, hlt, by decide +kernel, hjson, (htext _).mpr rfl, huw, by decide, hagree,
    by decide +kernel, hu' u huw (by decide) hagree⟩

end Tree

end PegKit
