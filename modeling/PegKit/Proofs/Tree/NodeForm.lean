import PegKit.Proofs.Json.Reading
import PegKit.Proofs.Tree.Planting

/-! # Values that are nodes

Which JSON values the decoder takes for nodes, and what shape they describe, said without it.

* `Document.NodeForm`: the values that are nodes. An array of the three things will do for an
  object, and `null` for a value or a list of nodes that is not there.
* `nodeForm_of_ofValue`, `NodeForm.exists_ofValue`: what is decoded and has a shape is a node of that
  shape, and a node is decoded if it is not nested too deep.
* `depth_le_of_ofValue`: nothing that is nested too deep is decoded.
* `Sound.insertJson_eq_ok`, `Sound.nodeForm_of_insertJson`, `insertJson_of_depth`: what inserting a
  text comes to.
-/

namespace PegKit

namespace Json

/-- The integer that the sign and the digits of a number spell. -/
def Number.value (n : Number) : Int :=
  if n.negative then -n.digits else n.digits

namespace Value

/-- Minus zero, which is read as a number with a fraction. -/
def minusZero : Value :=
  .number { negative := true, digits := 0, isInteger := true }

/-- An integer of 32 bits, spelled without fraction and exponent. -/
inductive IsKind : Value → Kind → Prop where
  | intro {n : Number} (integer : n.isInteger = true) (low : -2147483648 ≤ n.value)
      (high : n.value ≤ 2147483647) : IsKind (.number n) (Int32.ofInt n.value)

/-- What the members with a key have for values. -/
def valuesOf (members : List (Text × Value)) (key : String) : List Value :=
  (members.filter fun m => m.1 = some key).map Prod.snd

end Value

end Json

open Json Json.Value

namespace Document

/-! ## Nodes -/

/-- The members of a node have no other keys. -/
def OnlyKeys (members : List (Text × Value)) : Prop :=
  ∀ m ∈ members, m.1 = some "T" ∨ m.1 = some "V" ∨ m.1 = some "N"

/-- The parts of a node: what stands for its kind, and what there is for its value and for its list
of nodes. -/
inductive Slots : Value → (kind : Value) → (texts lists : List Value) → Prop where
  | object {members : List (Text × Value)} {kind : Value}
      (keys : OnlyKeys members)
      (kinds : valuesOf members "T" = [kind]) (texts : (valuesOf members "V").length ≤ 1)
      (lists : (valuesOf members "N").length ≤ 1) :
      Slots (.object members) kind (valuesOf members "V") (valuesOf members "N")
  | one (kind : Value) : Slots (.array [kind]) kind [] []
  | two (kind text : Value) : Slots (.array [kind, text]) kind [text] []
  | three (kind text list : Value) : Slots (.array [kind, text, list]) kind [text] [list]

/-- A part that is not there, or is null. -/
def Absent (vs : List Value) : Prop :=
  vs = [] ∨ vs = [.null]

mutual

/-- The value is a node of this shape. -/
inductive NodeForm : Value → Shape → Prop where
  | bare {v k : Value} {texts lists : List Value} {kind : Kind} (slots : Slots v k texts lists)
      (isKind : IsKind k kind) (sign : k ≠ minusZero) (noText : Absent texts)
      (noList : Absent lists) : NodeForm v (.node kind "" [])
  | leaf {v k : Value} {lists : List Value} {kind : Kind} {s : String}
      (slots : Slots v k [.string (some s)] lists) (isKind : IsKind k kind)
      (sign : k ≠ minusZero) (noList : Absent lists) : NodeForm v (.node kind s [])
  | branch {v k : Value} {texts items : List Value} {kind : Kind} {f : List Shape}
      (slots : Slots v k texts [.array items]) (isKind : IsKind k kind) (sign : k ≠ minusZero)
      (noText : Absent texts) (nodes : NodeForms items f) : NodeForm v (.node kind "" f)

/-- The values are nodes of these shapes. -/
inductive NodeForms : List Value → List Shape → Prop where
  | nil : NodeForms [] []
  | cons {v : Value} {vs : List Value} {x : Shape} {f : List Shape} (head : NodeForm v x)
      (tail : NodeForms vs f) : NodeForms (v :: vs) (x :: f)

end

/-! ## Parts of nodes -/

theorem slots_object {members : List (Text × Value)} {k : Value} {texts lists : List Value}
    (keys : OnlyKeys members) (hk : valuesOf members "T" = [k])
    (ht : valuesOf members "V" = texts) (hl : valuesOf members "N" = lists)
    (texts_le : texts.length ≤ 1) (lists_le : lists.length ≤ 1) :
    Slots (.object members) k texts lists := by
  subst ht hl
  exact .object keys hk texts_le lists_le

theorem toInt?_eq_some_iff {n : Number} {i : Int} : n.toInt? = some i ↔
    n.isInteger = true ∧ (n.negative = true → n.digits ≠ 0) ∧ n.value = i := by
  rcases n with ⟨negative, digits, isInteger⟩
  unfold Number.toInt? Number.value
  cases isInteger <;> cases negative <;> by_cases hd : digits = 0 <;> simp [hd]

theorem toKind?_eq_some_iff {k : Value} {kind : Kind} :
    k.toKind? = some kind ↔ IsKind k kind ∧ k ≠ minusZero := by
  constructor
  · intro h
    unfold toKind? toInt? at h
    obtain ⟨i, hi, h⟩ := Option.bind_eq_some_iff.mp h
    split at hi
    · next n =>
      rcases toInt?_eq_some_iff.mp hi with ⟨hint, hsign, rfl⟩
      split at h
      · next hrange =>
        cases h
        refine ⟨.intro hint hrange.1 hrange.2, ?_⟩
        intro he
        cases he
        exact hsign rfl rfl
      · cases h
    · cases hi
  · rintro ⟨⟨hint, hlow, hhigh⟩, hne⟩
    rename_i n
    have hi : (Value.number n).toInt? = some n.value := by
      refine toInt?_eq_some_iff.mpr ⟨hint, ?_, rfl⟩
      intro hneg hd
      rcases n with ⟨negative, digits, isInteger⟩
      cases hint
      cases hneg
      cases hd
      exact hne rfl
    unfold toKind?
    rw [hi]
    exact if_pos ⟨hlow, hhigh⟩

theorem member?_eq_some_iff {members : List (Text × Value)} {key : String} {o : Option Value} :
    member? members key = some o ↔ valuesOf members key = o.toList := by
  unfold member? valuesOf
  cases members.filter fun m => m.1 = some key with
  | nil => cases o <;> simp
  | cons m ms =>
    cases ms with
    | nil => cases o <;> simp
    | cons m' ms => cases o <;> simp

theorem fields?_object {members : List (Text × Value)} : fields? (.object members) =
    if members.all (fun m => m.1 ∈ [some "T", some "V", some "N"]) then
      (member? members "T").bind fun kinds => kinds.bind fun kind =>
        (member? members "V").bind fun text => (member? members "N").bind fun list =>
          some (kind, text, list)
    else none := by
  unfold fields?
  dsimp only
  cases members.all fun m => m.1 ∈ [some "T", some "V", some "N"] <;> rfl

theorem fields?_object_iff {members : List (Text × Value)} {k : Value} {text list : Option Value} :
    fields? (.object members) = some (k, text, list) ↔
      OnlyKeys members ∧ valuesOf members "T" = [k] ∧ valuesOf members "V" = text.toList ∧
        valuesOf members "N" = list.toList := by
  have hkeys : (members.all fun m => m.1 ∈ [some "T", some "V", some "N"]) = true ↔
      OnlyKeys members := by
    simp only [List.all_eq_true, decide_eq_true_eq, List.mem_cons, List.not_mem_nil, or_false,
      OnlyKeys]
  rw [fields?_object]
  constructor
  · intro h
    split at h
    · next hall =>
      obtain ⟨_, hk, hmore⟩ := Option.bind_eq_some_iff.mp h
      obtain ⟨kind, rfl, hrest⟩ := Option.bind_eq_some_iff.mp hmore
      obtain ⟨_, ht, hlast⟩ := Option.bind_eq_some_iff.mp hrest
      obtain ⟨_, hl, he⟩ := Option.bind_eq_some_iff.mp hlast
      cases he
      exact ⟨hkeys.mp hall, member?_eq_some_iff.mp hk, member?_eq_some_iff.mp ht,
        member?_eq_some_iff.mp hl⟩
    · cases h
  · rintro ⟨hall, hk, ht, hl⟩
    have hk : member? members "T" = some (some k) := member?_eq_some_iff.mpr hk
    rw [if_pos (hkeys.mpr hall), hk, member?_eq_some_iff.mpr ht, member?_eq_some_iff.mpr hl]
    rfl

theorem fields?_eq_some_iff {v k : Value} {text list : Option Value} :
    fields? v = some (k, text, list) ↔ Slots v k text.toList list.toList := by
  constructor
  · intro h
    match v with
    | .object members =>
      rcases fields?_object_iff.mp h with ⟨hkeys, hk, ht, hl⟩
      rw [← ht, ← hl]
      refine .object hkeys hk ?_ ?_
      · rw [ht]
        exact Option.length_toList_le
      · rw [hl]
        exact Option.length_toList_le
    | .array [kind] =>
      cases h
      exact .one k
    | .array [kind, text] =>
      cases h
      exact .two k text
    | .array [kind, text, list] =>
      cases h
      exact .three k text list
  · intro h
    generalize hts : text.toList = texts at h
    generalize hls : list.toList = lists at h
    cases h with
    | object keys kinds texts lists =>
      exact fields?_object_iff.mpr ⟨keys, kinds, hts.symm, hls.symm⟩
    | one =>
      rw [Option.toList_eq_nil_iff.mp hts, Option.toList_eq_nil_iff.mp hls]
      rfl
    | two =>
      rw [Option.toList_eq_singleton_iff.mp hts, Option.toList_eq_nil_iff.mp hls]
      rfl
    | three =>
      rw [Option.toList_eq_singleton_iff.mp hts, Option.toList_eq_singleton_iff.mp hls]
      rfl

theorem optionalText?_eq_none_iff {text : Option Value} :
    optionalText? text = some none ↔ Absent text.toList := by
  unfold Absent
  rcases text with _ | ⟨_ | _ | _ | (_ | s) | _ | _⟩ <;> simp [optionalText?, toText?]

theorem optionalText?_eq_some_iff {text : Option Value} {s : String} :
    optionalText? text = some (some s) ↔ text.toList = [.string (some s)] := by
  rcases text with _ | ⟨_ | _ | _ | (_ | s) | _ | _⟩ <;> simp [optionalText?, toText?]

theorem optionalItems?_eq_none_iff {list : Option Value} :
    optionalItems? list = some none ↔ Absent list.toList := by
  unfold Absent
  rcases list with _ | ⟨_ | _ | _ | _ | _ | _⟩ <;> simp [optionalItems?]

theorem optionalItems?_eq_some_iff {list : Option Value} {items : List Value} :
    optionalItems? list = some (some items) ↔ list.toList = [.array items] := by
  rcases list with _ | ⟨_ | _ | _ | _ | _ | _⟩ <;> simp [optionalItems?]

/-! ## Nesting -/

theorem mem_valuesOf {members : List (Text × Value)} {key : String} {v : Value} :
    v ∈ valuesOf members key ↔ (some key, v) ∈ members := by
  unfold valuesOf
  rw [List.mem_map]
  constructor
  · rintro ⟨⟨k, w⟩, hm, rfl⟩
    rcases List.mem_filter.mp hm with ⟨hm, hk⟩
    rwa [← of_decide_eq_true hk]
  · intro hm
    exact ⟨(some key, v), List.mem_filter.mpr ⟨hm, decide_eq_true rfl⟩, rfl⟩

/-- A node opens an array or an object, around its parts. -/
theorem Slots.depth_le_iff {v k : Value} {texts lists : List Value} {n : Nat}
    (h : Slots v k texts lists) :
    v.depth ≤ n + 1 ↔ ∀ w, w = k ∨ w ∈ texts ∨ w ∈ lists → w.depth ≤ n := by
  cases h with
  | @object members _ keys kinds texts lists =>
    have hk : ∀ w, (some "T", w) ∈ members ↔ w = k := by
      intro w
      rw [← mem_valuesOf, kinds, List.mem_singleton]
    rw [depth, Nat.add_le_add_iff_right, depthOfMembers_le_iff]
    constructor
    · rintro hall w (rfl | hw | hw)
      · exact hall (some "T", w) ((hk w).mpr rfl)
      · exact hall (some "V", w) (mem_valuesOf.mp hw)
      · exact hall (some "N", w) (mem_valuesOf.mp hw)
    · rintro hall ⟨key, w⟩ hm
      refine hall w ?_
      rcases keys (key, w) hm with rfl | rfl | rfl
      · exact .inl ((hk w).mp hm)
      · exact .inr (.inl (mem_valuesOf.mpr hm))
      · exact .inr (.inr (mem_valuesOf.mpr hm))
  | _ =>
    rw [depth, Nat.add_le_add_iff_right, depthOfItems_le_iff]
    simp

theorem Slots.depth_pos {v k : Value} {texts lists : List Value} (h : Slots v k texts lists) :
    0 < v.depth := by
  cases h <;> exact Nat.succ_pos _

/-! ## Decoding -/

theorem ofValue?_eq_some_iff {d : Nat} {v : Value} {kind : Kind} {value : Option String}
    {nodes : Option (List Document)} : ofValue? (d + 1) v = some ⟨kind, value, nodes⟩ ↔
      ∃ k text list, Slots v k text.toList list.toList ∧ k.toKind? = some kind ∧
        optionalText? text = some value ∧ (optionalItems? list = some none ∧ nodes = none ∨
          ∃ e items ds, d = e + 1 ∧ optionalItems? list = some (some items) ∧
            items.mapM (ofValue? e) = some ds ∧ nodes = some ds) := by
  constructor
  · intro h
    cases d with
    | zero =>
      rw [ofValue?] at h
      obtain ⟨⟨k, text, list⟩, hf, hrest⟩ := Option.bind_eq_some_iff.mp h
      obtain ⟨items, hl, hrest⟩ := Option.bind_eq_some_iff.mp hrest
      cases items with
      | none =>
        obtain ⟨kind, hk, hrest⟩ := Option.bind_eq_some_iff.mp hrest
        obtain ⟨value, ht, he⟩ := Option.bind_eq_some_iff.mp hrest
        cases he
        exact ⟨k, text, list, fields?_eq_some_iff.mp hf, hk, ht, .inl ⟨hl, rfl⟩⟩
      | some items => cases hrest
    | succ e =>
      rw [ofValue?] at h
      obtain ⟨⟨k, text, list⟩, hf, hrest⟩ := Option.bind_eq_some_iff.mp h
      obtain ⟨items, hl, hrest⟩ := Option.bind_eq_some_iff.mp hrest
      cases items with
      | none =>
        obtain ⟨kind, hk, hrest⟩ := Option.bind_eq_some_iff.mp hrest
        obtain ⟨value, ht, he⟩ := Option.bind_eq_some_iff.mp hrest
        cases he
        exact ⟨k, text, list, fields?_eq_some_iff.mp hf, hk, ht, .inl ⟨hl, rfl⟩⟩
      | some items =>
        obtain ⟨kind, hk, hrest⟩ := Option.bind_eq_some_iff.mp hrest
        obtain ⟨value, ht, hrest⟩ := Option.bind_eq_some_iff.mp hrest
        obtain ⟨ds, hds, he⟩ := Option.bind_eq_some_iff.mp hrest
        cases he
        exact ⟨k, text, list, fields?_eq_some_iff.mp hf, hk, ht,
          .inr ⟨e, items, ds, rfl, hl, hds, rfl⟩⟩
  · rintro ⟨k, text, list, hf, hk, ht, ⟨hl, rfl⟩ | ⟨e, items, ds, rfl, hl, hds, rfl⟩⟩
    · have hf := fields?_eq_some_iff.mpr hf
      cases d <;> rw [ofValue?, hf] <;> dsimp only [Option.bind_eq_bind, Option.bind_some] <;>
        rw [hl, hk, ht] <;> rfl
    · rw [ofValue?, fields?_eq_some_iff.mpr hf]
      dsimp only [Option.bind_eq_bind, Option.bind_some]
      rw [hl, hk, ht]
      dsimp only [Option.bind_eq_bind, Option.bind_some]
      rw [hds]
      rfl

theorem nodeForms_of_mapM {e : Nat} (ih : ∀ v doc x, ofValue? e v = some doc →
      doc.shape? = some x → NodeForm v x) {items : List Value} {ds : List Document}
    {f : List Shape} (hm : items.mapM (ofValue? e) = some ds) (hf : shapes? ds = some f) :
    NodeForms items f := by
  induction items generalizing ds f with
  | nil =>
    cases hm
    cases hf
    exact .nil
  | cons v items ih' =>
    rw [List.mapM_cons] at hm
    obtain ⟨d, hd, hrest⟩ := Option.bind_eq_some_iff.mp hm
    obtain ⟨ds, hds, he⟩ := Option.bind_eq_some_iff.mp hrest
    cases he
    obtain ⟨x, hx, hmore⟩ := Option.bind_eq_some_iff.mp hf
    obtain ⟨g, hg, he⟩ := Option.map_eq_some_iff.mp hmore
    cases he
    exact .cons (ih v d x hd hx) (ih' hds hg)

/-- What is decoded and has a shape is a node of that shape. -/
theorem nodeForm_of_ofValue (d : Nat) (v : Value) (doc : Document) (x : Shape)
    (h : ofValue? d v = some doc) (hx : doc.shape? = some x) : NodeForm v x := by
  -- on the limit, which falls by two from a node to the nodes of its list
  induction d using Nat.strongRecOn generalizing v doc x with
  | ind d ih =>
    cases d with
    | zero => cases h
    | succ d =>
      rcases doc with ⟨kind, value, nodes⟩
      rcases ofValue?_eq_some_iff.mp h with ⟨k, text, list, hs, hk, ht, hn⟩
      rcases toKind?_eq_some_iff.mp hk with ⟨hkind, hsign⟩
      rcases hn with ⟨hl, rfl⟩ | ⟨e, items, ds, rfl, hl, hds, rfl⟩
      · cases value with
        | none =>
          cases hx
          exact .bare hs hkind hsign (optionalText?_eq_none_iff.mp ht)
            (optionalItems?_eq_none_iff.mp hl)
        | some s =>
          cases hx
          rw [optionalText?_eq_some_iff.mp ht] at hs
          exact .leaf hs hkind hsign (optionalItems?_eq_none_iff.mp hl)
      · cases value with
        | none =>
          obtain ⟨f, hf, he⟩ := Option.map_eq_some_iff.mp hx
          cases he
          rw [optionalItems?_eq_some_iff.mp hl] at hs
          exact .branch hs hkind hsign (optionalText?_eq_none_iff.mp ht)
            (nodeForms_of_mapM (ih e (by omega)) hds hf)
        | some s => cases hx

theorem depth_of_isKind {k : Value} {kind : Kind} (h : IsKind k kind) : k.depth = 0 := by
  cases h
  rfl

theorem Absent.depth_eq {vs : List Value} (h : Absent vs) : ∀ w ∈ vs, w.depth = 0 := by
  intro w hw
  rcases h with rfl | rfl
  · cases hw
  · rw [List.mem_singleton.mp hw]
    rfl

theorem depth_of_optionalText {text : Option Value} {value : Option String}
    (h : optionalText? text = some value) : ∀ w ∈ text.toList, w.depth = 0 := by
  cases value with
  | none => exact (optionalText?_eq_none_iff.mp h).depth_eq
  | some s =>
    rw [optionalText?_eq_some_iff.mp h]
    intro w hw
    rw [List.mem_singleton.mp hw]
    rfl

/-- Every item is decoded when all of them are. -/
theorem exists_of_mapM {α β : Type} {g : α → Option β} {as : List α} {bs : List β}
    (h : as.mapM g = some bs) : ∀ a ∈ as, ∃ b, g a = some b := by
  induction as generalizing bs with
  | nil => nofun
  | cons a as ih =>
    rw [List.mapM_cons] at h
    obtain ⟨b, hb, hrest⟩ := Option.bind_eq_some_iff.mp h
    obtain ⟨bs, hbs, he⟩ := Option.bind_eq_some_iff.mp hrest
    exact List.forall_mem_cons.mpr ⟨⟨b, hb⟩, ih hbs⟩

/-- Nothing that is nested deeper than the limit is decoded. -/
theorem depth_le_of_ofValue (d : Nat) (v : Value) (doc : Document) (h : ofValue? d v = some doc) :
    v.depth ≤ d := by
  -- on the limit, as before; the list of nodes opens an array between two nodes
  induction d using Nat.strongRecOn generalizing v doc with
  | ind d ih =>
    cases d with
    | zero => cases h
    | succ d =>
      rcases doc with ⟨kind, value, nodes⟩
      rcases ofValue?_eq_some_iff.mp h with ⟨k, text, list, hs, hk, ht, hn⟩
      have hkind := depth_of_isKind (toKind?_eq_some_iff.mp hk).1
      refine hs.depth_le_iff.mpr ?_
      rintro w (rfl | hw | hw)
      · omega
      · rw [depth_of_optionalText ht w hw]
        exact Nat.zero_le d
      · rcases hn with ⟨hl, _⟩ | ⟨e, items, ds, rfl, hl, hds, _⟩
        · rw [(optionalItems?_eq_none_iff.mp hl).depth_eq w hw]
          exact Nat.zero_le d
        · rw [optionalItems?_eq_some_iff.mp hl] at hw
          rw [List.mem_singleton.mp hw, depth, Nat.add_le_add_iff_right, depthOfItems_le_iff]
          intro item hitem
          rcases exists_of_mapM hds item hitem with ⟨doc, hdoc⟩
          exact ih e (by omega) item doc hdoc

/-- A part that is not there, or is null, as the decoder has it. -/
theorem Absent.exists_option {vs : List Value} (h : Absent vs) : ∃ o : Option Value,
    vs = o.toList ∧ optionalText? o = some none ∧ optionalItems? o = some none := by
  rcases h with rfl | rfl
  · exact ⟨none, rfl, rfl, rfl⟩
  · exact ⟨some .null, rfl, rfl, rfl⟩

mutual

/-- A node within the limit is decoded. -/
theorem NodeForm.exists_ofValue {v : Value} {x : Shape} (h : NodeForm v x) (d : Nat)
    (hd : v.depth ≤ d) : ∃ doc, ofValue? d v = some doc ∧ doc.shape? = some x := by
  match h with
  | @NodeForm.bare _ _ _ _ kind slots isKind sign noText noList =>
    obtain ⟨d, rfl⟩ : ∃ e, d = e + 1 := ⟨d - 1, by have := slots.depth_pos; omega⟩
    rcases noText.exists_option with ⟨text, rfl, ht, _⟩
    rcases noList.exists_option with ⟨list, rfl, _, hl⟩
    exact ⟨⟨kind, none, none⟩, ofValue?_eq_some_iff.mpr
      ⟨_, text, list, slots, toKind?_eq_some_iff.mpr ⟨isKind, sign⟩, ht, .inl ⟨hl, rfl⟩⟩, rfl⟩
  | @NodeForm.leaf _ _ _ kind s slots isKind sign noList =>
    obtain ⟨d, rfl⟩ : ∃ e, d = e + 1 := ⟨d - 1, by have := slots.depth_pos; omega⟩
    rcases noList.exists_option with ⟨list, rfl, _, hl⟩
    exact ⟨⟨kind, some s, none⟩, ofValue?_eq_some_iff.mpr
      ⟨_, some (.string (some s)), list, slots, toKind?_eq_some_iff.mpr ⟨isKind, sign⟩, rfl,
        .inl ⟨hl, rfl⟩⟩, rfl⟩
  | @NodeForm.branch _ _ _ items kind f slots isKind sign noText nodes =>
    have hitems := (slots.depth_le_iff (n := d - 1)).mp (by omega) (.array items)
      (.inr (.inr List.mem_cons_self))
    rw [depth] at hitems
    obtain ⟨e, rfl⟩ : ∃ e, d = e + 2 := ⟨d - 2, by omega⟩
    rcases noText.exists_option with ⟨text, rfl, ht, _⟩
    rcases NodeForms.exists_mapM nodes e (by omega) with ⟨ds, hds, hf⟩
    refine ⟨⟨kind, none, some ds⟩, ofValue?_eq_some_iff.mpr
      ⟨_, text, some (.array items), slots, toKind?_eq_some_iff.mpr ⟨isKind, sign⟩, ht,
        .inr ⟨e, items, ds, rfl, rfl, hds, rfl⟩⟩, ?_⟩
    rw [shape?, hf]
    rfl

theorem NodeForms.exists_mapM {vs : List Value} {f : List Shape} (h : NodeForms vs f) (d : Nat)
    (hd : depthOfItems vs ≤ d) :
    ∃ ds, vs.mapM (ofValue? d) = some ds ∧ shapes? ds = some f := by
  match h with
  | .nil => exact ⟨[], rfl, rfl⟩
  | .cons head tail =>
    rw [depthOfItems, Nat.max_le] at hd
    rcases NodeForm.exists_ofValue head d hd.1 with ⟨doc, hdoc, hx⟩
    rcases NodeForms.exists_mapM tail d hd.2 with ⟨ds, hds, hf⟩
    refine ⟨doc :: ds, ?_, ?_⟩
    · rw [List.mapM_cons, hdoc, hds]
      rfl
    · rw [shapes?, hx, hf]
      rfl

end

end Document

/-! ## Inserted texts -/

namespace Tree

open Document

variable {t : Tree} {text : String} {v : Value} {x : Shape}

theorem read?_eq_of_isText (ht : IsText text v) : Document.read? text = ofValue? maxDepth v := by
  unfold Document.read?
  rw [read?_of_isText ht]
  rfl

/-- The text of a node within the limit is planted. -/
theorem Sound.insertJson_eq_ok (h : t.Sound) (ht : IsText text v) (hv : v.depth ≤ maxDepth)
    (hx : NodeForm v x) : ∃ u, t.insertJson text = (.ok t.size, u) ∧ Planted t x u := by
  rcases hx.exists_ofValue maxDepth hv with ⟨doc, hdoc, hshape⟩
  rcases h.insertDocument_eq_ok hshape with ⟨u, hu, hp⟩
  refine ⟨u, ?_, hp⟩
  rw [Tree.insertJson, read?_eq_of_isText ht, hdoc]
  dsimp only
  rw [hu]

/-- Only the text of a node is accepted. -/
theorem Sound.nodeForm_of_insertJson (h : t.Sound) (ht : IsText text v) {root : NodeId}
    (hok : (t.insertJson text).1 = .ok root) : ∃ x, NodeForm v x := by
  rw [Tree.insertJson, read?_eq_of_isText ht] at hok
  cases hdoc : ofValue? maxDepth v with
  | none =>
    rw [hdoc] at hok
    cases hok
  | some doc =>
    cases hshape : doc.shape? with
    | some x => exact ⟨x, nodeForm_of_ofValue maxDepth v doc x hdoc hshape⟩
    | none =>
      have herr := h.insertDocument_eq_error hshape
      rw [hdoc] at hok
      dsimp only at hok
      generalize t.insertDocument doc = out at hok herr
      rcases out with ⟨e | root, u⟩
      · cases hok
      · cases herr

/-- A text that is nested too deep is refused, and the tree stays as it was. -/
theorem insertJson_of_depth (ht : IsText text v) (hv : maxDepth < v.depth) :
    t.insertJson text = (.error .json, t) := by
  have hnone : ofValue? maxDepth v = none := by
    cases hdoc : ofValue? maxDepth v with
    | none => rfl
    | some doc => exact absurd (depth_le_of_ofValue maxDepth v doc hdoc) (Nat.not_le.mpr hv)
  rw [insertJson, read?_eq_of_isText ht, hnone]

end Tree

end PegKit
