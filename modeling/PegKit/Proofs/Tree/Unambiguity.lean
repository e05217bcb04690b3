import Mathlib.Data.List.Forall2
import PegKit.Proofs.Json.Reading
import PegKit.Proofs.Tree.RoundTrip

/-! # Texts tell nodes apart

The canonical text of a node determines what hangs under it, at any depth and whatever the values
hold.

* `Shape.toValue_inj`: different shapes are written as different JSON values. A JSON text spells one
  value only, so the values between the quotes cannot be taken for the text around them.
* `Shape.text_inj`: so different shapes have different texts.
* `Tree.SameShape`: two nodes with the same content and the same children, down to the leaves.
* `WellFormed.toJson_eq_iff`: two nodes have the same canonical text exactly if they are of the same
  shape.
-/

namespace PegKit

open Json

namespace Shape

/-! ## Values of shapes -/

/-- A kind is known by the number that it is written as. -/
theorem kind_inj {k l : Kind}
    (h : Value.number (.ofInt k.toInt) = Value.number (.ofInt l.toInt)) : k = l := by
  have hk := toKind?_ofInt k
  rw [h, toKind?_ofInt l] at hk
  exact (Option.some.inj hk).symm

/-- Before members with other keys, the member for the value tells which value it is and where it
ends. -/
theorem valueMember_inj {v w : String} {ms ns : List (Json.Text × Value)}
    (hms : ∀ m ∈ ms, m.1 ≠ some "V") (hns : ∀ m ∈ ns, m.1 ≠ some "V")
    (h : (if v = "" then [] else [(some "V", .string (some v))]) ++ ms =
      (if w = "" then [] else [(some "V", .string (some w))]) ++ ns) : v = w ∧ ms = ns := by
  by_cases hv : v = ""
  · by_cases hw : w = ""
    · rw [if_pos hv, if_pos hw] at h
      exact ⟨hv.trans hw.symm, h⟩
    -- a value on one side only would be a member of the other side with another key
    · rw [if_pos hv, if_neg hw, List.nil_append, List.singleton_append] at h
      exact absurd rfl (hms _ (h ▸ List.mem_cons_self))
  · by_cases hw : w = ""
    · rw [if_neg hv, if_pos hw, List.nil_append, List.singleton_append] at h
      exact absurd rfl (hns _ (h ▸ List.mem_cons_self))
    · rw [if_neg hv, if_neg hw, List.singleton_append, List.singleton_append] at h
      injection h with hm hms
      injection hm with _ hvalue
      injection hvalue with hvalue
      exact ⟨Option.some.inj hvalue, hms⟩

/-- The member for the children tells what it lists. -/
theorem nodesMember_inj {f g : List Shape}
    (h : (if f = [] then [] else [((some "N" : Json.Text), Value.array (toValues f))]) =
      if g = [] then [] else [(some "N", .array (toValues g))]) : toValues f = toValues g := by
  by_cases hf : f = []
  · by_cases hg : g = []
    · rw [hf, hg]
    · rw [if_pos hf, if_neg hg] at h
      cases h
  · by_cases hg : g = []
    · rw [if_neg hf, if_pos hg] at h
      cases h
    · rw [if_neg hf, if_neg hg] at h
      injection h with hm
      injection hm with _ harray
      injection harray

theorem nodesMember_key {f : List Shape} {m : Json.Text × Value}
    (h : m ∈ (if f = [] then [] else [((some "N" : Json.Text), Value.array (toValues f))])) :
    m.1 ≠ some "V" := by
  split at h
  · cases h
  · have hkey : m.1 = some "N" := congrArg Prod.fst (List.mem_singleton.mp h)
    rw [hkey]
    decide

mutual

/-- Different shapes are written as different values. -/
theorem toValue_inj (x y : Shape) (h : x.toValue = y.toValue) : x = y := by
  match x, y with
  | .node k v f, .node l w g =>
    rw [toValue, toValue] at h
    injection h with hmembers
    injection hmembers with hkind hrest
    injection hkind with _ hkind
    rcases valueMember_inj (fun _ => nodesMember_key) (fun _ => nodesMember_key) hrest with
      ⟨hvalue, hnodes⟩
    rw [kind_inj hkind, hvalue, toValues_inj f g (nodesMember_inj hnodes)]

/-- So are different forests. -/
theorem toValues_inj (f g : List Shape) (h : toValues f = toValues g) : f = g := by
  match f, g with
  | [], [] => rfl
  | x :: f, y :: g =>
    rw [toValues, toValues] at h
    injection h with hhead htail
    rw [toValue_inj x y hhead, toValues_inj f g htail]

end

/-! ## Texts of shapes -/

/-- Two shapes with the same text are one, however strings are quoted, as long as a quoted string
spells what is quoted. -/
theorem text_inj {quote : String → String} (hq : Quotes quote) {x y : Shape}
    (h : x.text quote = y.text quote) : x = y := by
  have hx : IsText (x.text quote) x.toValue := (x.spells_text hq).padded
  have hy : IsText (y.text quote) y.toValue := (y.spells_text hq).padded
  -- the reader finds the one value that a text spells
  have hread := read?_of_isText hx
  rw [h, read?_of_isText hy] at hread
  exact (toValue_inj y x (Option.some.inj hread)).symm

end Shape

namespace Tree

/-! ## Nodes of the same shape -/

/-- The node `x` of one tree and the node `y` of another have the same kind and the same value, and
as many children, which are of the same shape one by one. -/
inductive SameShape (t u : Tree) : (x y : NodeId) → Prop
  | intro {x y : NodeId} (kind : (t.node x).kind = (u.node y).kind)
      (value : (t.node x).value = (u.node y).value)
      (children : List.Forall₂ (SameShape t u) (t.children x) (u.children y)) : SameShape t u x y

variable {t u : Tree} {x y : NodeId}

theorem sameShape_iff_children : SameShape t u x y ↔ (t.node x).kind = (u.node y).kind ∧
    (t.node x).value = (u.node y).value ∧
      List.Forall₂ (SameShape t u) (t.children x) (u.children y) := by
  constructor
  · rintro ⟨hkind, hvalue, hchildren⟩
    exact ⟨hkind, hvalue, hchildren⟩
  · rintro ⟨hkind, hvalue, hchildren⟩
    exact ⟨hkind, hvalue, hchildren⟩

/-- What relates nodes as their shapes do relates lists of nodes as the forests under them do. -/
theorem forall₂_iff_map_shape {R : NodeId → NodeId → Prop} {cs ds : List NodeId}
    (h : ∀ c ∈ cs, ∀ d, R c d ↔ t.shape c = u.shape d) :
    List.Forall₂ R cs ds ↔ cs.map t.shape = ds.map u.shape := by
  rw [← List.forall₂_eq_eq_eq, List.forall₂_map_left_iff, List.forall₂_map_right_iff]
  constructor
  · intro hcs
    refine ((List.forall₂_and_left cs ds).mpr ⟨h, hcs⟩).imp ?_
    rintro c d ⟨hiff, hcd⟩
    exact (hiff d).mp hcd
  · intro hcs
    refine ((List.forall₂_and_left cs ds).mpr ⟨h, hcs⟩).imp ?_
    rintro c d ⟨hiff, hcd⟩
    exact (hiff d).mpr hcd

/-- Nodes are of the same shape if the shapes read off them are the same. -/
theorem Sound.sameShape_iff (ht : t.Sound) (hu : u.Sound) (x y : NodeId) :
    SameShape t u x y ↔ t.shape x = u.shape y := by
  -- down from the roots of the one tree, beside any node of the other
  induction x using ht.induction_down generalizing y with
  | step x ih =>
    rw [sameShape_iff_children, ht.shape_eq, hu.shape_eq, Shape.node.injEq,
      forall₂_iff_map_shape ih]

/-! ## Canonical texts -/

/-- Every node of a well-formed tree has a canonical text, and two nodes, of one tree or of two, have
the same one exactly if they are of the same shape. -/
theorem WellFormed.toJson_eq_iff (ht : t.WellFormed) (hu : u.WellFormed) (hx : x < t.size)
    (hy : y < u.size) : ∃ a b, t.toJson x = .ok a ∧ u.toJson y = .ok b ∧
      (a = b ↔ SameShape t u x y) := by
  refine ⟨_, _, ht.sound.toJson_eq hx, hu.sound.toJson_eq hy, ?_⟩
  rw [ht.sound.sameShape_iff hu.sound]
  constructor
  · exact Shape.text_inj spells_quoteCanonical
  · intro h
    rw [h]

/-- A value that looks like the text of two nodes is not taken for two nodes. The same node is
written in the same way wherever it stands in the arena. -/
theorem toJson_eq_iff_lookalike :
    let t := (Call.addChild 0 1 "a\"\x7d,\x7b\"T\":1,\"V\":\"b").run ((Call.makeRoot 7 "").run {})
    let u := (Call.addChild 0 1 "b").run ((Call.addChild 0 1 "a").run ((Call.makeRoot 7 "").run {}))
    let w := (Call.attach 1 0).run ((Call.makeRoot 7 "").run
      ((Call.makeRoot 1 "a\"\x7d,\x7b\"T\":1,\"V\":\"b").run {}))
    t.WellFormed ∧ u.WellFormed ∧ w.WellFormed ∧ 0 < t.size ∧ 0 < u.size ∧ 1 < w.size ∧
      t.toJson 0 ≠ u.toJson 0 ∧ t.toJson 0 = w.toJson 1 := by
  intro t u w
  have h0 := Reachable.empty.call (.makeRoot 7 "") (by decide)
  have ht : Reachable t := h0.call (.addChild 0 1 "a\"\x7d,\x7b\"T\":1,\"V\":\"b") (by decide)
  have h1 := h0.call (.addChild 0 1 "a") (by decide)
  have hu : Reachable u := h1.call (.addChild 0 1 "b") (by decide)
  have h2 := Reachable.empty.call (.makeRoot 1 "a\"\x7d,\x7b\"T\":1,\"V\":\"b") (by decide)
  have h3 := h2.call (.makeRoot 7 "") (by decide)
  have hw : Reachable w := h3.call (.attach 1 0) (by decide)
  have htw := ht.sound.wellFormed
  have huw := hu.sound.wellFormed
  have hww := hw.sound.wellFormed
  refine ⟨htw, huw, hww, by decide, by decide, by decide, ?_, ?_⟩
  · rcases WellFormed.toJson_eq_iff htw huw (x := 0) (y := 0) (by decide) (by decide) with
      ⟨a, b, ha, hb, hab⟩
    rw [ha, hb]
    intro heq
    have hshape := (ht.sound.sameShape_iff hu.sound 0 0).mp (hab.mp (Except.ok.inj heq))
    exact absurd hshape (by decide +kernel)
  · rcases WellFormed.toJson_eq_iff htw hww (x := 0) (y := 1) (by decide) (by decide) with
      ⟨a, b, ha, hb, hab⟩
    have hshape : t.shape 0 = w.shape 1 := by decide +kernel
    rw [ha, hb, hab.mpr ((ht.sound.sameShape_iff hw.sound 0 1).mpr hshape)]

end Tree

end PegKit
