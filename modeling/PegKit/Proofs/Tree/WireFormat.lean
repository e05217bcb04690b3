import PegKit.Proofs.Tree.RoundTrip

/-! # The wire format

`Document.IsNodeObject` is the format of node documents: objects with one kind, and either a value or
a list of nodes or neither. The decoder takes more than that, and in two places less.

* `Document.Plain`: nothing in the value is treated apart. No node is an array, no value and no list
  of nodes is `null`, no kind is minus zero, and no value has half a surrogate pair.
* `NodeForm.isNodeObject`, `IsNodeObject.nodeForm`: plain values are nodes to the decoder exactly if
  they have the format.
* `WellFormed.insertJson_isOk_iff`: which texts are accepted, and where that is the format.
-/

namespace PegKit

open Json Json.Value

namespace Document

/-- A node as the format has it: an object with the keys `T`, `V` and `N`, each at most once. -/
inductive IsNodeObject : Value → Prop where
  | bare {members : List (Json.Text × Value)} {k : Value} {kind : Kind} (keys : OnlyKeys members)
      (kinds : valuesOf members "T" = [k]) (isKind : IsKind k kind)
      (noText : valuesOf members "V" = []) (noList : valuesOf members "N" = []) :
      IsNodeObject (.object members)
  | leaf {members : List (Json.Text × Value)} {k : Value} {kind : Kind} {s : Json.Text}
      (keys : OnlyKeys members) (kinds : valuesOf members "T" = [k]) (isKind : IsKind k kind)
      (text : valuesOf members "V" = [.string s]) (noList : valuesOf members "N" = []) :
      IsNodeObject (.object members)
  | branch {members : List (Json.Text × Value)} {k : Value} {kind : Kind} {items : List Value}
      (keys : OnlyKeys members) (kinds : valuesOf members "T" = [k]) (isKind : IsKind k kind)
      (noText : valuesOf members "V" = []) (list : valuesOf members "N" = [.array items])
      (nodes : ∀ v ∈ items, IsNodeObject v) : IsNodeObject (.object members)

/-- Nothing in the value, or in the nodes of its list, is treated apart by the decoder. -/
inductive Plain : Value → Prop where
  | object {members : List (Json.Text × Value)} (sign : minusZero ∉ valuesOf members "T")
      (text : ∀ w ∈ valuesOf members "V", w ≠ .null ∧ w ≠ .string none)
      (list : .null ∉ valuesOf members "N")
      (nodes : ∀ items, .array items ∈ valuesOf members "N" → ∀ v ∈ items, Plain v) :
      Plain (.object members)
  | scalar {v : Value} (noObject : ∀ members, v ≠ .object members)
      (noArray : ∀ items, v ≠ .array items) : Plain v

/-! ## Parts of plain values -/

variable {v k : Value} {texts lists : List Value} {members : List (Json.Text × Value)}

theorem Slots.of_object (h : Slots (.object members) k texts lists) : OnlyKeys members ∧
    valuesOf members "T" = [k] ∧ valuesOf members "V" = texts ∧ valuesOf members "N" = lists := by
  cases h with
  | object keys kinds => exact ⟨keys, kinds, rfl, rfl⟩

/-- A plain value with the parts of a node is an object. -/
theorem Slots.of_plain (h : Slots v k texts lists) (hp : Plain v) :
    ∃ members, v = .object members := by
  cases h with
  | object => exact ⟨_, rfl⟩
  | _ =>
    cases hp with
    | scalar _ noArray => exact absurd rfl (noArray _)

/-- An object is plain if its parts are. -/
theorem Plain.of_parts (hk : valuesOf members "T" = [k]) (ht : valuesOf members "V" = texts)
    (hl : valuesOf members "N" = lists) (sign : k ≠ minusZero)
    (text : ∀ w ∈ texts, w ≠ .null ∧ w ≠ .string none) (list : .null ∉ lists)
    (nodes : ∀ items, .array items ∈ lists → ∀ v ∈ items, Plain v) : Plain (.object members) := by
  subst ht hl
  refine .object ?_ text list nodes
  rw [hk, List.mem_singleton]
  exact sign.symm

theorem Plain.of_object (h : Plain (.object members)) : minusZero ∉ valuesOf members "T" ∧
    (∀ w ∈ valuesOf members "V", w ≠ .null ∧ w ≠ .string none) ∧ .null ∉ valuesOf members "N" ∧
      ∀ items, .array items ∈ valuesOf members "N" → ∀ v ∈ items, Plain v := by
  cases h with
  | object sign text list nodes => exact ⟨sign, text, list, nodes⟩
  | scalar noObject => exact absurd rfl (noObject members)

theorem Absent.eq_nil {vs : List Value} (h : Absent vs) (hn : .null ∉ vs) : vs = [] := by
  rcases h with rfl | rfl
  · rfl
  · exact absurd List.mem_cons_self hn

theorem NodeForms.exists_of_mem {vs : List Value} {f : List Shape} (h : NodeForms vs f) :
    ∀ v ∈ vs, ∃ x, NodeForm v x := by
  match h with
  | .nil => nofun
  | .cons head tail => exact List.forall_mem_cons.mpr ⟨⟨_, head⟩, NodeForms.exists_of_mem tail⟩

theorem exists_nodeForms {vs : List Value} (h : ∀ v ∈ vs, ∃ x, NodeForm v x) :
    ∃ f, NodeForms vs f := by
  induction vs with
  | nil => exact ⟨[], .nil⟩
  | cons v vs ih =>
    rcases List.forall_mem_cons.mp h with ⟨⟨x, hx⟩, hvs⟩
    rcases ih hvs with ⟨f, hf⟩
    exact ⟨x :: f, .cons hx hf⟩

/-- What the members of an object are that is a node of the decoder. -/
theorem NodeForm.of_object {x : Shape} (h : NodeForm (.object members) x) :
    (∃ k, valuesOf members "T" = [k] ∧ k ≠ minusZero) ∧
      (Absent (valuesOf members "V") ∨ ∃ s, valuesOf members "V" = [.string (some s)]) ∧
      (Absent (valuesOf members "N") ∨
        ∃ items f, valuesOf members "N" = [.array items] ∧ NodeForms items f) := by
  cases h with
  | bare slots isKind sign noText noList =>
    rcases slots.of_object with ⟨_, hk, rfl, rfl⟩
    exact ⟨⟨_, hk, sign⟩, .inl noText, .inl noList⟩
  | leaf slots isKind sign noList =>
    rcases slots.of_object with ⟨_, hk, ht, rfl⟩
    exact ⟨⟨_, hk, sign⟩, .inr ⟨_, ht⟩, .inl noList⟩
  | branch slots isKind sign noText nodes =>
    rcases slots.of_object with ⟨_, hk, rfl, hl⟩
    exact ⟨⟨_, hk, sign⟩, .inl noText, .inr ⟨_, _, hl, nodes⟩⟩

/-! ## Format and decoder -/

mutual

/-- A plain node of the decoder has the format. -/
theorem NodeForm.isNodeObject {v : Value} {x : Shape} (h : NodeForm v x) (hp : Plain v) :
    IsNodeObject v := by
  match h with
  | .bare slots isKind _ noText noList =>
    rcases slots.of_plain hp with ⟨members, rfl⟩
    rcases slots.of_object with ⟨hkeys, hk, rfl, rfl⟩
    rcases hp.of_object with ⟨_, htext, hlist, _⟩
    exact .bare hkeys hk isKind (noText.eq_nil fun hn => (htext _ hn).1 rfl) (noList.eq_nil hlist)
  | .leaf slots isKind _ noList =>
    rcases slots.of_plain hp with ⟨members, rfl⟩
    rcases slots.of_object with ⟨hkeys, hk, ht, rfl⟩
    rcases hp.of_object with ⟨_, _, hlist, _⟩
    exact .leaf hkeys hk isKind ht (noList.eq_nil hlist)
  | .branch slots isKind _ noText nodes =>
    rcases slots.of_plain hp with ⟨members, rfl⟩
    rcases slots.of_object with ⟨hkeys, hk, rfl, hl⟩
    rcases hp.of_object with ⟨_, htext, _, hnodes⟩
    exact .branch hkeys hk isKind (noText.eq_nil fun hn => (htext _ hn).1 rfl) hl
      (NodeForms.isNodeObject nodes (hnodes _ (hl ▸ List.mem_cons_self)))

theorem NodeForms.isNodeObject {vs : List Value} {f : List Shape} (h : NodeForms vs f)
    (hp : ∀ v ∈ vs, Plain v) : ∀ v ∈ vs, IsNodeObject v := by
  match h with
  | .nil => nofun
  | .cons head tail =>
    rcases List.forall_mem_cons.mp hp with ⟨hv, hvs⟩
    exact List.forall_mem_cons.mpr
      ⟨NodeForm.isNodeObject head hv, NodeForms.isNodeObject tail hvs⟩

end

/-- The format has a string for a value. -/
theorem IsNodeObject.value_ne_null (h : IsNodeObject (.object members)) :
    valuesOf members "V" ≠ [.null] := by
  cases h with
  | bare _ _ _ noText _ => rw [noText]; nofun
  | leaf _ _ _ text _ => rw [text]; nofun
  | branch _ _ _ noText _ _ => rw [noText]; nofun

/-- A plain value that has the format is a node of the decoder. -/
theorem IsNodeObject.nodeForm (h : IsNodeObject v) (hp : Plain v) : ∃ x, NodeForm v x := by
  induction h with
  | bare keys kinds isKind noText noList =>
    rcases hp.of_object with ⟨hsign, _, _, _⟩
    rw [kinds, List.mem_singleton] at hsign
    exact ⟨_, .bare (slots_object keys kinds noText noList (by simp) (by simp)) isKind
      (Ne.symm hsign) (.inl rfl) (.inl rfl)⟩
  | @leaf members k kind s keys kinds isKind text noList =>
    rcases hp.of_object with ⟨hsign, htext, _, _⟩
    rw [kinds, List.mem_singleton] at hsign
    cases s with
    | none => exact absurd rfl (htext _ (text ▸ List.mem_cons_self)).2
    | some s =>
      exact ⟨_, .leaf (slots_object keys kinds text noList (by simp) (by simp)) isKind
        (Ne.symm hsign) (.inl rfl)⟩
  | branch keys kinds isKind noText list nodes ih =>
    rcases hp.of_object with ⟨hsign, _, _, hnodes⟩
    rw [kinds, List.mem_singleton] at hsign
    rcases exists_nodeForms fun v hv => ih v hv (hnodes _ (list ▸ List.mem_cons_self) v hv) with
      ⟨f, hf⟩
    exact ⟨_, .branch (slots_object keys kinds noText list (by simp) (by simp)) isKind
      (Ne.symm hsign) (.inl rfl) hf⟩

/-- What has the format and is a node of the decoder is plain. -/
theorem IsNodeObject.plain (h : IsNodeObject v) {x : Shape} (hx : NodeForm v x) : Plain v := by
  induction h generalizing x with
  | bare keys kinds isKind noText noList =>
    rcases hx.of_object with ⟨⟨k, hk, hsign⟩, _, _⟩
    exact .of_parts hk noText noList hsign nofun nofun nofun
  | @leaf members _ _ s keys kinds isKind text noList =>
    rcases hx.of_object with ⟨⟨k, hk, hsign⟩, ht, _⟩
    have hs : ∀ w ∈ [Value.string s], w ≠ .null ∧ w ≠ .string none := by
      intro w hw
      rw [List.mem_singleton.mp hw]
      rw [text] at ht
      rcases ht with (ht | ht) | ⟨s, ht⟩
      · cases ht
      · cases ht
      · cases ht
        exact ⟨nofun, nofun⟩
    exact .of_parts hk text noList hsign hs nofun nofun
  | @branch members _ _ items keys kinds isKind noText list nodes ih =>
    rcases hx.of_object with ⟨⟨k, hk, hsign⟩, _, hl⟩
    have hnodes : ∀ items', .array items' ∈ [Value.array items] → ∀ v ∈ items', Plain v := by
      intro items' hitems v hv
      cases List.mem_singleton.mp hitems
      rw [list] at hl
      rcases hl with (hl | hl) | ⟨_, f, hl, hf⟩
      · cases hl
      · cases hl
      · cases hl
        rcases hf.exists_of_mem v hv with ⟨x, hx⟩
        exact ih v hv hx
    exact .of_parts hk noText list hsign nofun (by simp) hnodes

end Document

/-! ## What is written -/

namespace Shape

mutual

/-- What is written for a node is plain. -/
theorem plain_toValue (x : Shape) : Document.Plain x.toValue := by
  match x with
  | .node kind value nodes =>
    have hslots := slots_toValue kind value nodes
    rw [toValue] at hslots ⊢
    rcases hslots.of_object with ⟨_, hk, ht, hl⟩
    refine .of_parts hk ht hl (isKind_ofInt kind).2 ?_ ?_ ?_
    · intro w hw
      split at hw
      · cases hw
      · rw [List.mem_singleton.mp hw]
        exact ⟨nofun, nofun⟩
    · split
      · nofun
      · rw [List.mem_singleton]
        nofun
    · intro items hitems
      split at hitems
      · cases hitems
      · cases List.mem_singleton.mp hitems
        exact plain_toValues nodes

theorem plain_toValues (f : List Shape) : ∀ v ∈ toValues f, Document.Plain v := by
  match f with
  | [] => nofun
  | x :: f => exact List.forall_mem_cons.mpr ⟨plain_toValue x, plain_toValues f⟩

end

/-- What is written for a node has the format. -/
theorem isNodeObject (x : Shape) (hx : x.Proper) : Document.IsNodeObject x.toValue :=
  (x.nodeForm hx).isNodeObject x.plain_toValue

end Shape

namespace Tree

open Document

variable {t : Tree} {text : String} {v : Value}

/-- Of the texts within the limit of nesting, exactly those of the nodes of the decoder are
accepted. For a plain value these are the ones that have the format, and a value that is not plain is
never both accepted and of the format. -/
theorem WellFormed.insertJson_isOk_iff (h : t.WellFormed) (ht : IsText text v)
    (hv : v.depth ≤ maxDepth) :
    ((∃ root, (t.insertJson text).1 = .ok root) ↔ ∃ x, NodeForm v x) ∧
      (Plain v → ((∃ root, (t.insertJson text).1 = .ok root) ↔ IsNodeObject v)) ∧
      (¬ Plain v → ¬ ((∃ root, (t.insertJson text).1 = .ok root) ∧ IsNodeObject v)) := by
  have hform : (∃ root, (t.insertJson text).1 = .ok root) ↔ ∃ x, NodeForm v x := by
    constructor
    · rintro ⟨root, hok⟩
      exact h.sound.nodeForm_of_insertJson ht hok
    · rintro ⟨x, hx⟩
      rcases h.sound.insertJson_eq_ok ht hv hx with ⟨u, hu, _⟩
      exact ⟨t.size, congrArg Prod.fst hu⟩
  refine ⟨hform, fun hp => hform.trans ⟨?_, fun hn => hn.nodeForm hp⟩, fun hp hboth => hp ?_⟩
  · rintro ⟨x, hx⟩
    exact hx.isNodeObject hp
  · rcases hform.mp hboth.1 with ⟨x, hx⟩
    exact hboth.2.plain hx

/-- A list of one node, in a tree that is empty. -/
theorem insertJson_isOk_leaf :
    let text := "\x7b\"T\":1,\"N\":[\x7b\"T\":2,\"V\":\"b\"\x7d]\x7d"
    let v := (Shape.node 1 "" [.node 2 "b" []]).toValue
    ({} : Tree).WellFormed ∧ IsText text v ∧ v.depth ≤ maxDepth ∧ Plain v ∧ IsNodeObject v ∧
      ∃ root, (({} : Tree).insertJson text).1 = .ok root := by
  intro text v
  have hempty : ({} : Tree).WellFormed := sound_empty.wellFormed
  have hwritten : (Shape.node 1 "" [.node 2 "b" []]).text quoteCanonical = text := by
    decide +kernel
  have ht : IsText text v := hwritten ▸ isText_text _
  have hdepth : v.depth ≤ maxDepth := by decide +kernel
  have hplain : Plain v := Shape.plain_toValue _
  have hproper : (Shape.node 1 "" [.node 2 "b" []]).Proper := by
    simp [Shape.Proper, Shape.ProperEach]
  have hobject : IsNodeObject v := Shape.isNodeObject _ hproper
  rcases hempty.insertJson_isOk_iff ht hdepth with ⟨_, hformat, _⟩
  exact ⟨hempty, ht, hdepth, hplain, hobject, (hformat hplain).mpr hobject⟩

/-- A node with both keys is accepted when its value is `null`. -/
theorem insertJson_isOk_null :
    let text := "\x7b\"T\":1,\"V\":null,\"N\":[\x7b\"T\":2\x7d]\x7d"
    let v := Value.object [(some "T", .number (.ofInt (1 : Kind).toInt)), (some "V", .null),
      (some "N", .array [(Shape.node 2 "" []).toValue])]
    IsText text v ∧ v.depth ≤ maxDepth ∧ ¬ IsNodeObject v ∧
      ∃ root, (({} : Tree).insertJson text).1 = .ok root := by
  intro text v
  have hkind : SpellsMember _ (some "T", .number (.ofInt (1 : Kind).toInt)) :=
    Shape.spellsMember_key (c := 'T') (by decide) (spells_render 1)
  have hvalue : SpellsMember _ (some "V", .null) :=
    Shape.spellsMember_key (c := 'V') (by decide) .null
  have hnode := (Shape.node 2 "" []).spells_text spells_quoteCanonical
  have hlist : SpellsMember _ (some "N", .array [(Shape.node 2 "" []).toValue]) :=
    Shape.spellsMember_key (c := 'N') (by decide) (.array (.last hnode.padded))
  have ht : IsText text v := by
    have h := (Spells.object (.more hkind (.more hvalue (.last hlist)))).padded
    exact Eq.mpr (congrArg (SpellsPadded · v) (by decide +kernel)) h
  have hdepth : v.depth ≤ maxDepth := by decide +kernel
  have hnodes : NodeForm (Shape.node 2 "" []).toValue (.node 2 "" []) :=
    Shape.nodeForm _ (by simp [Shape.Proper, Shape.ProperEach])
  have hslots : Slots v (.number (.ofInt (1 : Kind).toInt)) [.null]
      [.array [(Shape.node 2 "" []).toValue]] := by
    refine slots_object ?_ rfl rfl rfl (by simp) (by simp)
    simp [OnlyKeys]
  have hform : NodeForm v (.node 1 "" [.node 2 "" []]) :=
    .branch hslots (Shape.isKind_ofInt 1).1 (Shape.isKind_ofInt 1).2 (.inr rfl)
      (.cons hnodes .nil)
  rcases sound_empty.insertJson_eq_ok ht hdepth hform with ⟨u, hu, _⟩
  exact ⟨ht, hdepth, fun h => h.value_ne_null rfl, _, congrArg Prod.fst hu⟩

end Tree

end PegKit
