import PegKit.Proofs.Json.Reading
import PegKit.Proofs.Json.Writing
import PegKit.Registry.Record

/-! # Records as JSON text

A record is written as an object whose last two members may be left out. What is left out is what the
reader takes by default, so nothing is lost.

* `Json.present`: the members of an object some of which are left out. `member?_present` says that
  each key has its value back, or none.
* `RuleRecord.members`: the members that are written, and `isText_toJson`: the text spells them.
* `RuleRecord.ofValue?_members`: these members are read as the record.
* `RuleRecord.ofJson?_toJson`: so every record comes back from its text, and from every other text
  with the same members.
-/

namespace PegKit

open Json

/-! ## Members that may be left out -/

namespace Json

variable {fields : List (String × Option Value)} {key : String} {o : Option Value}

/-- The members whose values are not missing. -/
def present (fields : List (String × Option Value)) : List (Text × Value) :=
  fields.flatMap fun f => (f.2.map fun v => (some f.1, v)).toList

theorem all_isSome_present : (present fields).all (fun m => m.1.isSome) = true := by
  rw [List.all_eq_true]
  intro m hm
  obtain ⟨f, _, hmember⟩ := List.mem_flatMap.mp hm
  obtain ⟨v, _, rfl⟩ := Option.map_eq_some_iff.mp (Option.mem_toList.mp hmember)
  rfl

theorem present_cons (f : String × Option Value) (fields : List (String × Option Value)) :
    present (f :: fields) = (f.2.map fun v => (some f.1, v)).toList ++ present fields :=
  List.flatMap_cons

theorem present_concat (fields : List (String × Option Value)) (f : String × Option Value) :
    present (fields ++ [f]) = present fields ++ (f.2.map fun v => (some f.1, v)).toList := by
  unfold present
  rw [List.flatMap_append, List.flatMap_singleton]

theorem filter_present_of_not_mem (h : key ∉ fields.map Prod.fst) :
    (present fields).filter (fun m => m.1 = some key) = [] := by
  rw [List.filter_eq_nil_iff]
  intro m hm hkey
  obtain ⟨f, hf, hmember⟩ := List.mem_flatMap.mp hm
  obtain ⟨v, _, rfl⟩ := Option.map_eq_some_iff.mp (Option.mem_toList.mp hmember)
  rw [decide_eq_true_eq, Option.some_inj] at hkey
  exact h (List.mem_map.mpr ⟨f, hf, hkey⟩)

/-- Where no key comes twice, what has a key is found under it, and nothing else. -/
theorem filter_present (hkeys : (fields.map Prod.fst).Nodup) (h : (key, o) ∈ fields) :
    (present fields).filter (fun m => m.1 = some key) =
      (o.map fun v => ((some key : Text), v)).toList := by
  induction fields with
  | nil => cases h
  | cons f fields ih =>
    rw [List.map_cons, List.nodup_cons] at hkeys
    obtain ⟨hnew, hkeys⟩ := hkeys
    rw [present_cons, List.filter_append]
    rcases List.mem_cons.mp h with rfl | htail
    · rw [filter_present_of_not_mem hnew, List.append_nil]
      cases o <;> simp
    · have hother : f.1 ≠ key := by
        rintro rfl
        exact hnew (List.mem_map.mpr ⟨_, htail, rfl⟩)
      rw [ih hkeys htail]
      cases f.2 <;> simp [hother]

theorem member?_present (hkeys : (fields.map Prod.fst).Nodup) (h : (key, o) ∈ fields) :
    Value.member? (present fields) key = some o := by
  unfold Value.member?
  rw [filter_present hkeys h]
  cases o <;> rfl

end Json

/-! ## Categories -/

theorem Category.spells_toJson (k : Category) :
    Spells k.toJson.toList (.number (.ofInt k.number)) := by
  have hnumber := spellsNumber_toString (k.number : Int)
  apply Spells.number
  cases k <;> exact hnumber

/-- A category is the number that is written for it. -/
theorem Category.ofValue?_number (k : Category) :
    Category.ofValue? (.number (.ofInt k.number)) = some k := by
  cases k <;> rfl

namespace RuleRecord

/-! ## Writing -/

/-- The value for a text, which is missing when the text is empty. -/
def textValue? (text : String) : Option Value :=
  if text = "" then none else some (.string (some text))

theorem textValue?_eq_none_iff {text : String} : textValue? text = none ↔ text = "" := by
  simp [textValue?]

/-- The fields of a record, by their keys. -/
def fields (r : RuleRecord) : List (String × Option Value) :=
  [("id", some (.number (.ofInt r.kind.toInt))), ("name", some (.string (some r.name))),
    ("type", some (.number (.ofInt r.category.number))), ("pegn", textValue? r.pattern),
    ("desc", textValue? r.description)]

/-- The members that are written for a record. -/
def members (r : RuleRecord) : List (Json.Text × Value) :=
  present r.fields

/-- A text goes behind other members, unless it is empty. -/
theorem spellsMembers_textMember {cs : List Char} {fs : List (String × Option Value)}
    (h : SpellsMembers cs (present fs)) {key : String} (hkey : IsPlainKey key) (text : String) :
    SpellsMembers (cs ++ (textMember key text).toList)
      (present (fs ++ [(key, textValue? text)])) := by
  unfold textMember textValue?
  rw [present_concat]
  by_cases htext : text = ""
  · rw [if_pos htext, if_pos htext]
    simpa using h
  · rw [if_neg htext, if_neg htext]
    have hmember := h.concat (hkey.spellsMember (spells_quotePlain text))
    simpa [String.toList_append] using hmember

/-- The text of a record spells its members. -/
theorem isText_toJson (r : RuleRecord) : IsText r.toJson (.object r.members) := by
  have hid : IsPlainKey "id" := by decide
  have hname : IsPlainKey "name" := by decide
  have htype : IsPlainKey "type" := by decide
  have hpegn : IsPlainKey "pegn" := by decide
  have hdesc : IsPlainKey "desc" := by decide
  have hkind := SpellsMembers.last (hid.spellsMember (spells_render r.kind))
  have hnamed := hkind.concat (hname.spellsMember (spells_quotePlain r.name))
  have hgiven : SpellsMembers _ (present (r.fields.take 3)) :=
    hnamed.concat (htype.spellsMember r.category.spells_toJson)
  have hpattern := spellsMembers_textMember hgiven hpegn r.pattern
  have hall := spellsMembers_textMember hpattern hdesc r.description
  have hfields : r.fields.take 3 ++ [("pegn", textValue? r.pattern)] ++
      [("desc", textValue? r.description)] = r.fields := rfl
  rw [hfields] at hall
  apply Spells.padded
  have hobject := Spells.object hall
  unfold toJson members
  simpa [String.toList_append] using hobject

/-! ## Reading -/

/-- Every field is found under its key, or is missing. -/
theorem member?_members {r : RuleRecord} {key : String} {o : Option Value}
    (h : (key, o) ∈ r.fields) : Value.member? r.members key = some o := by
  have hkeys : ["id", "name", "type", "pegn", "desc"].Nodup := by decide
  exact member?_present hkeys h

/-- A text that is left out when it is empty is empty when it is missing. -/
theorem optional?_textValue (text : String) :
    optional? "" Value.toText? (textValue? text) = some text := by
  unfold textValue?
  split
  · next htext =>
    rw [htext]
    rfl
  · rfl

/-- The members are read as the record. -/
theorem ofValue?_members (r : RuleRecord) : ofValue? (.object r.members) = some r := by
  have hkeys : r.members.all (fun m => m.1.isSome) = true := all_isSome_present
  have hfields : ∀ f ∈ r.fields, Value.member? r.members f.1 = some f.2 :=
    fun _ hf => member?_members hf
  have hkind := toKind?_ofInt r.kind
  have hcategory : optional? .rule Category.ofValue? (some (.number (.ofInt r.category.number))) =
      some r.category := r.category.ofValue?_number
  have hpattern := optional?_textValue r.pattern
  have hdescription := optional?_textValue r.description
  simp only [fields, List.forall_mem_cons] at hfields
  obtain ⟨hmId, hmName, hmType, hmPattern, hmDescription, _⟩ := hfields
  unfold ofValue?
  simp only [hkeys, hmId, hmName, hmType, hmPattern, hmDescription]
  unfold ofFields?
  simp [hkind, hcategory, hpattern, hdescription, Value.toText?]

/-! ## There and back -/

/-- The JSON text of a record spells an object that has the kind, the name and, as a number, the
category, and the two texts that describe the rule unless they are empty. It is read as the record,
and so is every other text that spells the same object. -/
theorem ofJson?_toJson (r : RuleRecord) :
    (IsText r.toJson (.object r.members) ∧
      Value.member? r.members "type" = some (some (.number (.ofInt r.category.number))) ∧
      (Value.member? r.members "pegn" = some none ↔ r.pattern = "") ∧
      (Value.member? r.members "desc" = some none ↔ r.description = "")) ∧
    ofJson? r.toJson = some r ∧
    ∀ text, IsText text (.object r.members) → ofJson? text = some r := by
  have hread : ∀ text, IsText text (.object r.members) → ofJson? text = some r := by
    intro text htext
    unfold ofJson?
    rw [read?_of_isText htext]
    exact ofValue?_members r
  refine ⟨⟨isText_toJson r, ?_, ?_, ?_⟩, hread _ (isText_toJson r), hread⟩
  · exact member?_members (by simp [fields])
  · have hmember : Value.member? r.members "pegn" = some (textValue? r.pattern) :=
      member?_members (by simp [fields])
    rw [hmember, Option.some_inj, textValue?_eq_none_iff]
  · have hmember : Value.member? r.members "desc" = some (textValue? r.description) :=
      member?_members (by simp [fields])
    rw [hmember, Option.some_inj, textValue?_eq_none_iff]

end RuleRecord

end PegKit
