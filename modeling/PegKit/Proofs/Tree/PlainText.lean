import PegKit.Proofs.Json.Separators
import PegKit.Proofs.Tree.CanonicalText

/-! # The plain text of a node

The two writers beside each other. The plain one goes down the tree by `first` and `right`, the
canonical one works off a stack along `last` and `left`.

* `Sound.toPlainJson_eq`: the plain writer puts out the text of the shape too, with values quoted
  the plain way.
* `Piecewise.text`: a relation of texts that goes from parts to the whole holds of two texts of a
  node if it holds of the quoted values.
* `WellFormed.toPlainJson_of_toJson`: the texts differ in the escapes of separators only.
-/

namespace PegKit.Tree

variable {t : Tree} {id : NodeId}

/-! ## The plain writer -/

theorem plainText_succ (h : t.Sound) (hid : id < t.size) (depth : Nat) :
    t.plainText (depth + 1) id = objectText Json.quotePlain (t.node id).kind (t.node id).value
      ((t.children id).map (t.plainText depth)) := by
  have hcount : (t.node id).count = 0 ↔ (t.children id).map (t.plainText depth) = [] := by
    rw [h.count_eq hid, List.length_eq_zero_iff, List.map_eq_nil_iff]
  rw [plainText, objectText]
  simp only [hcount]

/-- The levels that the writer goes down are enough. -/
theorem Sound.plainText_eq (h : t.Sound) (hid : id < t.size) {depth : Nat}
    (hd : t.size ≤ depth + t.depth id) :
    t.plainText depth id = (t.shape id).text Json.quotePlain := by
  induction depth generalizing id with
  | zero =>
    have hlt := h.length_ancestors_lt hid
    rw [Nat.zero_add] at hd
    exact absurd hlt (Nat.not_lt.mpr hd)
  | succ depth ih =>
    rw [plainText_succ h hid, h.text_shape]
    congr 1
    refine List.map_congr_left fun c hc => ih (h.laidOut.lt_of_mem hc) ?_
    rw [h.depth_child hc]
    omega

theorem Sound.toPlainJson_eq (h : t.Sound) (hid : id < t.size) :
    t.toPlainJson id = .ok ((t.shape id).text Json.quotePlain) := by
  rw [toPlainJson, lookup_of_lt hid]
  exact congrArg Except.ok (h.plainText_eq hid (Nat.le_add_right _ _))

/-! ## Texts piece by piece -/

theorem isBare_render (kind : Kind) : Json.IsBare kind.render := by
  have hdigits (n : Nat) : ∀ c ∈ Nat.toDigits 10 n, c ≠ '\\' ∧ Json.isSeparator c = false :=
    fun _ hc => Json.bare_of_mem_toDigits (by decide) (by decide) hc
  intro c hc
  rw [Kind.render, Int.toString_eq_repr, Int.repr_eq_if] at hc
  split at hc
  · rw [Nat.toList_repr] at hc
    exact hdigits _ c hc
  · rw [String.toList_append, Nat.toList_repr, List.mem_append] at hc
    rcases hc with hc | hc
    · have hminus : Json.IsBare "-" := by decide
      exact hminus c hc
    · exact hdigits _ c hc

/-- The relation holds of bare texts and themselves, and of joined texts if it holds of the
parts. -/
structure Piecewise (R : String → String → Prop) : Prop where
  bare : ∀ s, Json.IsBare s → R s s
  append : ∀ {a b a' b'}, R a b → R a' b' → R (a ++ a') (b ++ b')

namespace Piecewise

variable {R : String → String → Prop}

theorem intercalate (hR : Piecewise R) {f g : NodeId → String} {cs : List NodeId}
    (h : ∀ c ∈ cs, R (f c) (g c)) :
    R (",".intercalate (cs.map f)) (",".intercalate (cs.map g)) := by
  have hcomma := hR.bare "," (by decide)
  induction cs with
  | nil => exact hR.bare "" (by decide)
  | cons c cs ih =>
    rcases List.forall_mem_cons.mp h with ⟨hc, hcs⟩
    cases cs with
    | nil =>
      rw [List.map_singleton, List.map_singleton, String.intercalate_singleton,
        String.intercalate_singleton]
      exact hc
    | cons d cs =>
      rw [List.map_cons, List.map_cons, List.map_cons, List.map_cons,
        String.intercalate_cons_cons, String.intercalate_cons_cons]
      exact hR.append (hR.append hc hcomma) (ih hcs)

theorem objectText (hR : Piecewise R) {quote quote' : String → String} (kind : Kind)
    {value : String} (hvalue : R (quote value) (quote' value)) {f g : NodeId → String}
    {cs : List NodeId} (h : ∀ c ∈ cs, R (f c) (g c)) :
    R (objectText quote kind value (cs.map f)) (objectText quote' kind value (cs.map g)) := by
  have hempty := hR.bare "" (by decide)
  have hopen := hR.append (hR.bare "\x7b\"T\":" (by decide)) (hR.bare _ (isBare_render kind))
  have hend := hR.bare "\x7d" (by decide)
  unfold Tree.objectText
  simp only [List.map_eq_nil_iff]
  refine hR.append (hR.append (hR.append hopen ?_) ?_) hend
  · split
    · exact hempty
    · exact hR.append (hR.bare _ (by decide)) hvalue
  · split
    · exact hempty
    · exact hR.append (hR.append (hR.bare _ (by decide)) (hR.intercalate h)) (hR.bare _ (by decide))

/-- What holds of the quoted values at and below a node holds of its texts. -/
theorem text (hR : Piecewise R) (h : t.Sound) (quote quote' : String → String)
    (hvalues : ∀ x, t.Under x id → R (quote (t.node x).value) (quote' (t.node x).value)) :
    R ((t.shape id).text quote) ((t.shape id).text quote') := by
  induction id using h.induction_down with
  | step id ih =>
    rw [h.text_shape, h.text_shape]
    refine hR.objectText _ (hvalues id (.refl id)) fun c hc => ih c hc fun x hx => hvalues x ?_
    exact hx.trans (.step (h.mem_children_iff.mp hc) (.refl id))

end Piecewise

theorem piecewise_unescapes : Piecewise Json.Unescapes where
  bare := fun _ hs => hs.unescapes
  append := .append

theorem piecewise_eq : Piecewise Eq where
  bare := fun _ _ => rfl
  append := fun h h' => congrArg₂ _ h h'

/-- Having no separator, as a relation that looks at one side only. -/
theorem piecewise_noSeparator :
    Piecewise fun a _ => ∀ c ∈ a.toList, Json.isSeparator c = false where
  bare := fun _ hs c hc => (hs c hc).2
  append := by
    intro a b a' b' h h' c hc
    rw [String.toList_append, List.mem_append] at hc
    exact hc.elim (h c) (h' c)

/-! ## What a text contains -/

theorem mem_toList_append {a b : String} {c : Char} :
    c ∈ (a ++ b).toList ↔ c ∈ a.toList ∨ c ∈ b.toList := by
  rw [String.toList_append, List.mem_append]

theorem mem_intercalate {ss : List String} {s : String} {c : Char} (hs : s ∈ ss)
    (hc : c ∈ s.toList) : c ∈ (",".intercalate ss).toList := by
  induction ss with
  | nil => cases hs
  | cons a ss ih =>
    rw [intercalate_cons, mem_toList_append]
    rcases List.mem_cons.mp hs with rfl | hs
    · exact .inl hc
    · cases ss with
      | nil => cases hs
      | cons b ss =>
        rw [String.intercalate_cons_cons, mem_toList_append]
        exact .inr (.inr (ih hs))

section objectText

variable {quote : String → String} {kind : Kind} {value : String} {texts : List String} {c : Char}

theorem mem_objectText_of_value (hv : value ≠ "") (hc : c ∈ (quote value).toList) :
    c ∈ (objectText quote kind value texts).toList := by
  have hmember : c ∈ (",\"V\":" ++ quote value).toList := mem_toList_append.mpr (.inr hc)
  rw [objectText, if_neg hv, mem_toList_append, mem_toList_append, mem_toList_append]
  exact .inl (.inl (.inr hmember))

theorem mem_objectText_of_child {s : String} (hs : s ∈ texts) (hc : c ∈ s.toList) :
    c ∈ (objectText quote kind value texts).toList := by
  have hlist : c ∈ (",\"N\":[" ++ ",".intercalate texts ++ "]").toList := by
    rw [mem_toList_append, mem_toList_append]
    exact .inl (.inr (mem_intercalate hs hc))
  rw [objectText, if_neg (List.ne_nil_of_mem hs), mem_toList_append, mem_toList_append]
  exact .inl (.inr hlist)

end objectText

/-- What stands in a quoted value stands in the text of every node above. -/
theorem Sound.mem_text (h : t.Sound) {quote : String → String} {x : NodeId} (hx : t.Under x id)
    (hv : (t.node x).value ≠ "") {c : Char} (hc : c ∈ (quote (t.node x).value).toList) :
    c ∈ ((t.shape id).text quote).toList := by
  induction id using h.induction_down with
  | step id ih =>
    rw [h.text_shape]
    rcases h.under_iff.mp hx with rfl | ⟨d, hd, hu⟩
    · exact mem_objectText_of_value hv hc
    · exact mem_objectText_of_child (List.mem_map_of_mem hd) (ih d hd hu)

/-! ## Both writers -/

/-- From any node of a well-formed tree both writers put out a text. With the escapes of separators
replaced by the separators the canonical text is the plain one, which has no such escapes itself.
The two are the same text exactly if no value at or below the node has a separator in it. -/
theorem WellFormed.toPlainJson_of_toJson (h : t.WellFormed) (hid : id < t.size) :
    ∃ canonical plain, t.toJson id = .ok canonical ∧ t.toPlainJson id = .ok plain ∧
      Json.unescapeSeparators canonical = plain ∧ Json.unescapeSeparators plain = plain ∧
      (canonical = plain ↔
        ∀ x, t.Under x id → ∀ c ∈ (t.node x).value.toList, Json.isSeparator c = false) := by
  have hs := h.sound
  refine ⟨_, _, hs.toJson_eq hid, hs.toPlainJson_eq hid, ?_, ?_, fun heq x hx c hc => ?_, ?_⟩
  · exact (piecewise_unescapes.text hs _ _ fun x _ => Json.unescapes_quoteCanonical _).eq
  · exact (piecewise_unescapes.text hs _ _ fun x _ => Json.unescapes_quotePlain _).eq
  · -- a separator in a value would be in the plain text, and the canonical one has none
    have hnone : ∀ c ∈ ((t.shape id).text Json.quoteCanonical).toList, Json.isSeparator c = false :=
      piecewise_noSeparator.text hs Json.quoteCanonical Json.quotePlain fun x _ =>
        Json.isSeparator_quoteCanonical (t.node x).value
    refine Bool.eq_false_iff.mpr fun hsep => ?_
    have hv : (t.node x).value ≠ "" := by
      intro hv
      rw [hv] at hc
      cases hc
    have hmem := hs.mem_text hx hv (Json.mem_quotePlain hsep hc)
    rw [← heq] at hmem
    exact Bool.eq_false_iff.mp (hnone c hmem) hsep
  · intro hvalues
    exact piecewise_eq.text hs _ _ fun x hx => Json.quoteCanonical_eq_quotePlain (hvalues x hx)

/-- A value with a separator makes a difference. A value that spells the escape of one makes none:
its backslash is escaped, and is no escape of a separator. -/
theorem toPlainJson_of_toJson_lookalike :
    let t := (Call.addChild 0 1 "a\u2028").run ((Call.addChild 0 1 "\\u2028").run
      ((Call.makeRoot 7 "").run {}))
    t.WellFormed ∧ 0 < t.size ∧ 1 < t.size ∧
      (∃ canonical plain, t.toJson 0 = .ok canonical ∧ t.toPlainJson 0 = .ok plain ∧
        Json.unescapeSeparators canonical = plain ∧ canonical ≠ plain) ∧
      ∃ text, t.toJson 1 = .ok text ∧ t.toPlainJson 1 = .ok text := by
  intro t
  have h0 := Reachable.empty.call (.makeRoot 7 "") (by decide)
  have h1 := h0.call (.addChild 0 1 "\\u2028") (by decide)
  have ht : Reachable t := h1.call (.addChild 0 1 "a\u2028") (by decide)
  have hw := ht.sound.wellFormed
  have h0lt : 0 < t.size := by decide
  have h1lt : 1 < t.size := by decide
  have hbelow : ∀ x, t.Under x 1 → x = 1 := by
    intro x hx
    have hmem := (ht.sound.mem_preorder_iff h1lt).mpr hx
    rw [show t.preorder 1 = [1] by decide +kernel] at hmem
    exact List.mem_singleton.mp hmem
  have hchild : t.Under 2 0 := .step (show (t.node 2).parent = some 0 by decide +kernel) (.refl 0)
  rcases hw.toPlainJson_of_toJson h0lt with ⟨canonical, plain, hc, hp, hun, _, hiff⟩
  rcases hw.toPlainJson_of_toJson h1lt with ⟨text, text', hc', hp', _, _, hiff'⟩
  refine ⟨hw, h0lt, h1lt, ⟨canonical, plain, hc, hp, hun, fun heq => ?_⟩, text, hc', ?_⟩
  · have hsep := hiff.mp heq 2 hchild '\u2028' (by decide +kernel)
    exact absurd hsep (by decide)
  · have hnone : (t.node 1).value.toList.all (fun c => !Json.isSeparator c) = true := by
      decide +kernel
    have heq : text = text' := by
      refine hiff'.mpr fun x hx c hc => ?_
      rw [hbelow x hx] at hc
      exact (Bool.not_eq_true' _).mp (List.all_eq_true.mp hnone c hc)
    rw [hp', heq]

end PegKit.Tree
