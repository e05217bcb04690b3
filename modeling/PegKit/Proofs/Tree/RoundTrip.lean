import PegKit.Proofs.Json.Writing
import PegKit.Proofs.Tree.Calls
import PegKit.Proofs.Tree.NodeForm
import PegKit.Proofs.Tree.Serialization

/-! # Trees through JSON

What is written for a node, and what becomes of it where it is inserted.

* `Shape.toValue`: the value that the text of a node spells, whatever the writer of strings escapes.
* `Shape.depth_toValue`: an object and an array for each level, without an array at the last one.
* `Shape.nodeForm`: the value is a node of the shape.
* `WellFormed.insertJson_toJson`: down to 64 levels the subtree comes back, and below not.
-/

namespace PegKit

open Json

namespace Shape

/-! ## The value of a shape -/

mutual

/-- The value that is written for a node. -/
def toValue : Shape → Value
  | node kind value nodes =>
    .object ((some "T", .number (.ofInt kind.toInt)) ::
      ((if value = "" then [] else [(some "V", .string (some value))]) ++
        (if nodes = [] then [] else [(some "N", .array (toValues nodes))])))

/-- The values that are written for the trees of a forest. -/
def toValues : List Shape → List Value
  | [] => []
  | x :: xs => x.toValue :: toValues xs

end

/-- A key of one letter with its value. -/
theorem spellsMember_key {c : Char} {cs : List Char} {v : Value}
    (hc : ' ' ≤ c ∧ c ≠ '"' ∧ c ≠ '\\') (h : Spells cs v) :
    SpellsMember ('"' :: c :: '"' :: ':' :: cs) (some (String.singleton c), v) := by
  have hkey : IsPlainKey (String.singleton c) := by
    intro d hd
    rw [String.toList_singleton] at hd
    rwa [List.mem_singleton.mp hd]
  have hmember := hkey.spellsMember h
  rwa [String.toList_singleton] at hmember

/-- How the members behind another one are spelled, if there are any. -/
def Following (cs : List Char) (ms : List (Json.Text × Value)) : Prop :=
  cs = [] ∧ ms = [] ∨ ∃ ds, cs = ',' :: ds ∧ SpellsMembers ds ms

section Following

variable {cs ds : List Char} {m : Json.Text × Value} {ms : List (Json.Text × Value)}

theorem spellsMembers_cons (hm : SpellsMember cs m) (h : Following ds ms) :
    SpellsMembers (cs ++ ds) (m :: ms) := by
  rcases h with ⟨rfl, rfl⟩ | ⟨ds, rfl, hms⟩
  · rw [List.append_nil]
    exact .last hm
  · exact .more hm hms

theorem Following.cons (hm : SpellsMember cs m) (h : Following ds ms) :
    Following (',' :: (cs ++ ds)) (m :: ms) :=
  .inr ⟨cs ++ ds, rfl, spellsMembers_cons hm h⟩

end Following

/-- Every text is quoted as a string that spells it. -/
def Quotes (quote : String → String) : Prop :=
  ∀ s, Spells (quote s).toList (.string (some s))

variable {quote : String → String}

/-- The member for the value, which is written unless it is empty. -/
theorem Following.value (hq : Quotes quote) {cs : List Char} {ms : List (Json.Text × Value)}
    (h : Following cs ms) (value : String) : Following
      ((if value = "" then "" else ",\"V\":" ++ quote value).toList ++ cs)
      ((if value = "" then [] else [(some "V", .string (some value))]) ++ ms) := by
  split
  · exact h
  · have hkey : ",\"V\":".toList = [',', '"', 'V', '"', ':'] := rfl
    have h := Following.cons (spellsMember_key (c := 'V') (by decide) (hq value)) h
    rw [String.toList_append, hkey, List.append_assoc]
    exact h

mutual

/-- The text of a node spells its value. -/
theorem spells_text (hq : Quotes quote) (x : Shape) : Spells (x.text quote).toList x.toValue := by
  match x with
  | .node kind value nodes =>
    have hnodes : Following (if nodes = [] then "" else ",\"N\":[" ++
          ",".intercalate (texts quote nodes) ++ "]").toList
        (if nodes = [] then [] else [(some "N", .array (toValues nodes))]) := by
      split
      · exact .inl ⟨rfl, rfl⟩
      · next hne =>
        have hitems := Spells.array (spellsItems_texts hq nodes hne)
        have h := Following.cons (spellsMember_key (c := 'N') (by decide) hitems) (.inl ⟨rfl, rfl⟩)
        rw [String.toList_append, String.toList_append]
        rwa [List.append_nil] at h
    have hkind : SpellsMember ('"' :: 'T' :: '"' :: ':' :: kind.render.toList)
        (some "T", .number (.ofInt kind.toInt)) :=
      spellsMember_key (by decide) (spells_render kind)
    have h := Spells.object (spellsMembers_cons hkind (hnodes.value hq value))
    have hopen : "\x7b\"T\":".toList = ['\x7b', '"', 'T', '"', ':'] := rfl
    have hclose : "\x7d".toList = ['\x7d'] := rfl
    rw [toValue, text, String.toList_append, String.toList_append, String.toList_append,
      String.toList_append, hopen, hclose]
    simp only [List.append_assoc, List.cons_append, List.nil_append] at h ⊢
    exact h

theorem spellsItems_texts (hq : Quotes quote) (f : List Shape) (hf : f ≠ []) :
    SpellsItems (",".intercalate (texts quote f)).toList (toValues f) := by
  match f with
  | [x] =>
    rw [texts, texts, String.intercalate_singleton, toValues, toValues]
    exact .last (spells_text hq x).padded
  | x :: y :: f =>
    rw [texts, texts, String.intercalate_cons_cons, toValues, String.toList_append,
      String.toList_append, List.append_assoc]
    exact .more (spells_text hq x).padded (spellsItems_texts hq (y :: f) (List.cons_ne_nil y f))

end

/-! ## Nesting -/

mutual

/-- Each level opens an object and, but for the last one, an array. -/
theorem depth_toValue (x : Shape) : x.toValue.depth + 1 = 2 * x.height := by
  match x with
  | .node kind value nodes =>
    have hscalar : ∀ (ms : List (Json.Text × Value)), Value.depthOfMembers
        ((if value = "" then [] else [(some "V", .string (some value))]) ++ ms) =
          Value.depthOfMembers ms := by
      intro ms
      split
      · rfl
      · exact Nat.zero_max _
    rw [toValue, Value.depth, Value.depthOfMembers, hscalar, height, Value.depth]
    · by_cases hne : nodes = []
      · rw [if_pos hne, hne]
        rfl
      · have h := depth_toValues nodes hne
        rw [if_neg hne, Value.depthOfMembers, Value.depth, Value.depthOfMembers]
        omega
    all_goals nofun

theorem depth_toValues (f : List Shape) (hf : f ≠ []) :
    Value.depthOfItems (toValues f) + 1 = 2 * heights f := by
  match f with
  | [x] =>
    have hx := depth_toValue x
    rw [toValues, toValues, Value.depthOfItems, Value.depthOfItems, heights, heights]
    omega
  | x :: y :: f =>
    have hx := depth_toValue x
    have hf := depth_toValues (y :: f) (List.cons_ne_nil y f)
    rw [toValues, Value.depthOfItems, heights]
    omega

end

/-! ## Nodes -/

mutual

/-- No node has both a value and something below it. -/
def Proper : Shape → Prop
  | node _ value nodes => (value ≠ "" → nodes = []) ∧ ProperEach nodes

/-- The trees of a forest are proper. -/
def ProperEach : List Shape → Prop
  | [] => True
  | x :: xs => x.Proper ∧ ProperEach xs

end

theorem isKind_ofInt (kind : Kind) : Value.IsKind (.number (.ofInt kind.toInt)) kind ∧
    .number (.ofInt kind.toInt) ≠ Value.minusZero :=
  Document.toKind?_eq_some_iff.mp (toKind?_ofInt kind)

/-- The parts of what is written for a node. -/
theorem slots_toValue (kind : Kind) (value : String) (nodes : List Shape) :
    Document.Slots (toValue (.node kind value nodes)) (.number (.ofInt kind.toInt))
      (if value = "" then [] else [.string (some value)])
      (if nodes = [] then [] else [.array (toValues nodes)]) := by
  rw [toValue]
  refine Document.slots_object ?keys ?kinds ?texts ?lists ?textsLe ?listsLe
  case keys =>
    intro m hm
    rcases List.mem_cons.mp hm with rfl | hm
    · exact .inl rfl
    rcases List.mem_append.mp hm with hm | hm
    · split at hm
      · cases hm
      · exact .inr (.inl (congrArg Prod.fst (List.mem_singleton.mp hm)))
    · split at hm
      · cases hm
      · exact .inr (.inr (congrArg Prod.fst (List.mem_singleton.mp hm)))
  case kinds => split <;> split <;> rfl
  case texts => split <;> split <;> rfl
  case lists => split <;> split <;> rfl
  case textsLe =>
    split
    · exact Nat.zero_le 1
    · exact Nat.le_refl 1
  case listsLe =>
    split
    · exact Nat.zero_le 1
    · exact Nat.le_refl 1

mutual

/-- The value that is written for a node is a node of its shape. -/
theorem nodeForm (x : Shape) (hx : x.Proper) : Document.NodeForm x.toValue x := by
  match x with
  | .node kind value nodes =>
    rcases hx with ⟨hvalue, hnodes⟩
    rcases isKind_ofInt kind with ⟨hkind, hsign⟩
    have hslots := slots_toValue kind value nodes
    by_cases hv : value = ""
    · subst hv
      by_cases hne : nodes = []
      · subst hne
        exact .bare hslots hkind hsign (.inl rfl) (.inl rfl)
      · rw [if_neg hne] at hslots
        exact .branch hslots hkind hsign (.inl rfl) (nodeForms nodes hnodes)
    · rw [hvalue hv] at hslots ⊢
      rw [if_neg hv] at hslots
      exact .leaf hslots hkind hsign (.inl rfl)

theorem nodeForms (f : List Shape) (hf : ProperEach f) : Document.NodeForms (toValues f) f := by
  match f with
  | [] => exact .nil
  | x :: f => exact .cons (nodeForm x hf.1) (nodeForms f hf.2)

end

end Shape

namespace Tree

variable {t : Tree} {id : NodeId}

theorem properEach_map {cs : List NodeId} (h : ∀ c ∈ cs, (t.shape c).Proper) :
    Shape.ProperEach (cs.map t.shape) := by
  induction cs with
  | nil => trivial
  | cons c cs ih =>
    exact ⟨h c List.mem_cons_self, ih fun d hd => h d (List.mem_cons_of_mem c hd)⟩

theorem Sound.proper_shape (h : t.Sound) (id : NodeId) : (t.shape id).Proper := by
  induction id using h.induction_down with
  | step id ih =>
    rw [h.shape_eq]
    refine ⟨fun hv => ?_, properEach_map ih⟩
    rw [h.plain id hv, List.map_nil]

/-! ## There and back -/

theorem isText_text (x : Shape) : IsText (x.text quoteCanonical) x.toValue :=
  (x.spells_text spells_quoteCanonical).padded

/-- A subtree of a well-formed tree is written as a text. Down to 64 levels, inserting the text makes
a new root that stands alone, has the same shape and is written in the same way, and leaves the nodes
that were there as they were. From 65 levels on the text is refused and the tree that it was inserted
into stays as it was. -/
theorem WellFormed.insertJson_toJson {u : Tree} (ht : t.WellFormed) (hid : id < t.size)
    (hu : u.WellFormed) : ∃ text, t.toJson id = .ok text ∧
      ((t.shape id).height ≤ 64 → ∃ root v, u.insertJson text = (.ok root, v) ∧ v.WellFormed ∧
        u.size ≤ root ∧ root < v.size ∧ (v.node root).parent = none ∧
        (v.node root).left = none ∧ (v.node root).right = none ∧
        v.shape root = t.shape id ∧ v.toJson root = .ok text ∧ ∀ j < u.size, v.node j = u.node j) ∧
      (64 < (t.shape id).height → u.insertJson text = (.error .json, u)) := by
  have htext := isText_text (t.shape id)
  have hdepth := (t.shape id).depth_toValue
  refine ⟨_, ht.sound.toJson_eq hid, fun hlow => ?_, fun hhigh => ?_⟩
  · have hd : (t.shape id).toValue.depth ≤ Document.maxDepth := by
      unfold Document.maxDepth
      omega
    have hform := (t.shape id).nodeForm (ht.sound.proper_shape id)
    rcases hu.sound.insertJson_eq_ok htext hd hform with ⟨v, hv, hp⟩
    have hs := hp.wellFormed.sound
    have hpos : 0 < (t.shape id).size := by
      rw [ht.sound.shape_eq, Shape.size]
      exact Nat.succ_pos _
    have hroot : u.size < v.size := hp.size_eq ▸ Nat.lt_add_of_pos_right hpos
    have hshape := hs.shape_of_stands _ _ hp.stands
    rcases hp.wellFormed.roots u.size hroot hp.root with ⟨hleft, hright⟩
    refine ⟨u.size, v, hv, hp.wellFormed, Nat.le_refl _, hroot, hp.root, hleft, hright, hshape, ?_,
      hp.node_eq⟩
    rw [hs.toJson_eq hroot, hshape]
  · refine insertJson_of_depth htext ?_
    unfold Document.maxDepth
    omega

/-- A tree with one node at each level. -/
def ladder : (below : Nat) → Tree
  | 0 => (Call.makeRoot 1 "").run {}
  | n + 1 => (Call.addChild n 1 "").run (ladder n)

/-- Every rung of a ladder is put under the one before it, none of which has a value. -/
theorem ladder_reachable (n : Nat) : Reachable (ladder n) ∧ (ladder n).size = n + 1 ∧
    ∀ x, ((ladder n).node x).value = "" := by
  induction n with
  | zero =>
    refine ⟨Reachable.empty.call (.makeRoot 1 "") (by decide), rfl, fun x => ?_⟩
    show ((makeRoot {} 1 "").2.node x).value = ""
    rw [node_makeRoot, node_of_le (Nat.zero_le x)]
    split <;> rfl
  | succ n ih =>
    rcases ih with ⟨hr, hsize, hvalue⟩
    have hn : n < (ladder n).size := hsize ▸ Nat.lt_succ_self n
    have hrun : ladder (n + 1) =
        ((ladder n).makeRoot 1 "").2.linkUnder n (ladder n).size := by
      rw [ladder, Call.run, addChild_eq hn, if_neg (not_not.mpr (hvalue n))]
      rfl
    refine ⟨hr.call (.addChild n 1 "") ?_, ?_, fun x => ?_⟩
    · intro id hid
      rwa [List.mem_singleton.mp hid]
    · rw [hrun, size_linkNew, hsize]
    · rw [hrun, value_linkNew hr.sound hn]
      split
      · rfl
      · exact hvalue x

/-- A kind below zero and a value with a quote come back, into a tree that is not empty. A ladder of
65 levels does not. -/
theorem insertJson_toJson_quote :
    let t := (Call.addChild 0 (-3) "a\"b").run ((Call.makeRoot 7 "").run {})
    let u := (Call.makeRoot 5 "x").run {}
    t.WellFormed ∧ 0 < t.size ∧ u.WellFormed ∧ (t.shape 0).height ≤ 64 ∧ (∃ text root v,
      t.toJson 0 = .ok text ∧ u.insertJson text = (.ok root, v) ∧ v.shape root = t.shape 0 ∧
      v.toJson root = .ok text ∧ v.node 0 = { kind := 5, value := "x" }) ∧
    (ladder 64).WellFormed ∧ ((ladder 64).shape 0).height = 65 ∧
      ∃ text, (ladder 64).toJson 0 = .ok text ∧ u.insertJson text = (.error .json, u) := by
  intro t u
  have h0 := Reachable.empty.call (.makeRoot 7 "") (by decide)
  have h1 : Reachable t := h0.call (.addChild 0 (-3) "a\"b") (by decide)
  have ht := h1.sound.wellFormed
  have hu : u.WellFormed := (Reachable.empty.call (.makeRoot 5 "x") (by decide)).sound.wellFormed
  have hlow : (t.shape 0).height ≤ 64 := by decide +kernel
  rcases ht.insertJson_toJson (show 0 < t.size by decide) hu with ⟨text, htext, hback, _⟩
  rcases hback hlow with ⟨root, v, hv, _, _, _, _, _, _, hshape, hjson, hold⟩
  rcases ladder_reachable 64 with ⟨hreach, hsize, _⟩
  have hl := hreach.sound.wellFormed
  have hhigh : ((ladder 64).shape 0).height = 65 := by decide +kernel
  have hpos : 0 < (ladder 64).size := hsize ▸ Nat.succ_pos 64
  rcases hl.insertJson_toJson hpos hu with ⟨deep, hdeep, _, hrefused⟩
  exact ⟨ht, by decide, hu, hlow, ⟨text, root, v, htext, hv, hshape, hjson, hold 0 (by decide)⟩,
    hl, hhigh, deep, hdeep, hrefused (hhigh ▸ Nat.lt_succ_self 64)⟩

end Tree

end PegKit
