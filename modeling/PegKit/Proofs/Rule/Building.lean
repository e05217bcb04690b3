import PegKit.Proofs.Rule.Consumption
import PegKit.Proofs.Rule.Failure
import PegKit.Proofs.Rule.Forest
import PegKit.Proofs.Rule.Scanning

/-! # What parsing builds

Parsing a rule without custom rules recognises what the rule recognises, and builds the forest of
the match.

* `Plants` and `Builds` say so of an action that makes a node and of one that puts nodes under a
  parent.
* `builds_of_plain`: each way to run parts and each step of parsing hands it on, so all rules have
  it.
* `parse_agrees_with_recognize` and `parse_builds_forest` are what a caller sees of it.
-/

namespace PegKit.Rule

/-! ## Actions -/

/-- The action answers as the recognition `x` does, and where that matches it adds the forest `f`
behind the children of `p`. -/
def Builds (p : NodeId) (y : ParseM Bool) (x : ScanM Bool) (f : Scanner → List Shape) : Prop :=
  ∀ s t, t.Sound → p < t.size → (t.node p).value = "" →
    ∃ u, y s t = .ok (x s, u) ∧ ((x s).1 = true → Tree.Grafted t p (f s) u)

/-- The action returns a node where the recognition `x` matches: the first new one, the root of a
subtree of the shape `f` that is all that is new. -/
def Plants (z : ParseM (Option NodeId)) (x : ScanM Bool) (f : Scanner → Shape) : Prop :=
  ∀ s t, t.Sound → ∃ u, z s t = .ok ((if (x s).1 then some t.size else none, (x s).2), u) ∧
    ((x s).1 = true → Tree.Planted t (f s) u)

/-- Only where the recognition matches does it matter what is added. -/
theorem Builds.congr {p : NodeId} {y : ParseM Bool} {x : ScanM Bool} {f g : Scanner → List Shape}
    (h : Builds p y x f) (hfg : ∀ s, (x s).1 = true → f s = g s) : Builds p y x g := by
  intro s t ht hp hv
  rcases h s t ht hp hv with ⟨u, he, hg⟩
  exact ⟨u, he, fun hm => hfg s hm ▸ hg hm⟩

theorem Plants.congr {z : ParseM (Option NodeId)} {x : ScanM Bool} {f g : Scanner → Shape}
    (h : Plants z x f) (hfg : ∀ s, (x s).1 = true → f s = g s) : Plants z x g := by
  intro s t ht
  rcases h s t ht with ⟨u, he, hg⟩
  exact ⟨u, he, fun hm => hfg s hm ▸ hg hm⟩

section Actions

variable {p : NodeId} {kind : Kind} {rs : List Rule}

/-! ## Parts -/

theorem builds_inOrder (h : ∀ r ∈ rs, Builds p (r.parseUnder p) r.recognize r.forest) :
    Builds p (inOrder (parseEachUnder rs p)) (inOrder (recognizeEach rs)) (forestInOrder rs) := by
  induction rs with
  | nil =>
    intro s t ht hp hv
    exact ⟨t, rfl, fun _ => .refl ht p⟩
  | cons r rs ih =>
    intro s t ht hp hv
    rcases h r List.mem_cons_self s t ht hp hv with ⟨u, he, hg⟩
    rw [parseEachUnder, recognizeEach, Parsing.inOrder_cons, inOrder_cons, forestInOrder, he]
    rcases hx : r.recognize s with ⟨_ | _, s1⟩
    · exact ⟨u, rfl, (Bool.noConfusion ·)⟩
    · rw [hx] at hg
      have hu := hg rfl
      have hp' : p < u.size := hu.size_eq ▸ Nat.lt_add_right _ hp
      have hv' : (u.node p).value = "" := (hu.content_eq p hp).2.1.trans hv
      rcases ih (fun r hr => h r (List.mem_cons_of_mem _ hr)) s1 u hu.wellFormed.sound hp' hv'
        with ⟨v, he', hg'⟩
      exact ⟨v, he', fun hm => hu.trans hp (hg' hm)⟩

/-- An alternative that fails leaves the tree as it was for the next one. -/
theorem builds_firstOfFrom (h : ∀ r ∈ rs, Builds p (r.parseUnder p) r.recognize r.forest)
    (hback : ∀ r ∈ rs, Undoes (r.parseUnder p)) (base : Nat) :
    Builds p (firstOfFrom kind base (parseEachUnder rs p))
      (firstOfFrom kind base (recognizeEach rs)) (forestFirst rs) := by
  induction rs with
  | nil =>
    intro s t ht hp hv
    exact ⟨t, rfl, (Bool.noConfusion ·)⟩
  | cons r rs ih =>
    intro s t ht hp hv
    rcases h r List.mem_cons_self s t ht hp hv with ⟨u, he, hg⟩
    have hfail := hback r List.mem_cons_self s t false
    rw [parseEachUnder, recognizeEach, Parsing.firstOfFrom_cons, firstOfFrom_cons, forestFirst]
    split
    · exact ⟨t, rfl, (Bool.noConfusion ·)⟩
    rw [he]
    rcases hx : r.recognize s with ⟨_ | _, s1⟩
    · rw [hx] at he
      have hut : u = t := (hfail s1 u ht he).2 rfl
      rw [hut]
      exact ih (fun r hr => h r (List.mem_cons_of_mem _ hr))
        (fun r hr => hback r (List.mem_cons_of_mem _ hr)) s1 t ht hp hv
    · rw [hx] at hg
      exact ⟨u, rfl, hg⟩

/-- A body that fails leaves the tree as it was, so what the matches before it built stays. -/
theorem builds_repeatedFrom {y : ParseM Bool} {x : ScanM Bool} {f : Scanner → List Shape}
    (h : Builds p y x f) (hback : Undoes y) (min attempts matched : Nat) :
    Builds p (repeatedFrom min y attempts matched) (repeatedFrom min x attempts matched)
      (forestRepeated x f attempts) := by
  -- on the attempts
  induction attempts generalizing matched with
  | zero =>
    intro s t ht hp hv
    exact ⟨t, rfl, fun _ => .refl ht p⟩
  | succ attempts ih =>
    intro s t ht hp hv
    rcases h s t ht hp hv with ⟨u, he, hg⟩
    have hfail := hback s t false
    rw [Parsing.repeatedFrom_succ, repeatedFrom_succ, forestRepeated]
    split
    · exact ⟨t, rfl, (Bool.noConfusion ·)⟩
    rw [he]
    rcases hx : x s with ⟨_ | _, s1⟩
    · rw [hx] at he
      have hut : u = t := (hfail s1 u ht he).2 rfl
      rw [hut]
      exact ⟨t, rfl, fun _ => .refl ht p⟩
    · rw [hx] at hg
      have hu := hg rfl
      dsimp only
      split
      · exact ⟨u, rfl, fun _ => hu⟩
      · have hp' : p < u.size := hu.size_eq ▸ Nat.lt_add_right _ hp
        have hv' : (u.node p).value = "" := (hu.content_eq p hp).2.1.trans hv
        rcases ih (matched + 1) s1 u hu.wellFormed.sound hp' hv' with ⟨v, he', hg'⟩
        exact ⟨v, he', fun hm => hu.trans hp (hg' hm)⟩

/-- What a composite rule does with its parts builds what they yield, if each part builds what it
yields. -/
theorem builds_fillUnder {r : Rule} (hc : r.isComposite = true)
    (h : ∀ part ∈ r.parts, Builds p (part.parseUnder p) part.recognize part.forest)
    (hback : ∀ part ∈ r.parts, Undoes (part.parseUnder p)) :
    Builds p (r.fillUnder p) r.fill r.forestOfParts := by
  cases r with
  | seq kind parts => exact builds_inOrder h
  | choice kind alternatives =>
    exact fun s t => builds_firstOfFrom h hback s.errors.size s t
  | repetition kind body min max =>
    have hb := List.mem_singleton_self body
    exact fun s t => builds_repeatedFrom (h body hb) (hback body hb) min _ 0 s t
  | notAhead | ahead | literal | charClass | builtin | custom => cases hc

/-! ## Nodes -/

theorem plants_token (x : ScanM Bool) :
    Plants (parseToken kind x) x fun s => .gather kind ((x s).2.consumedSince s.cur) [] := by
  intro s t ht
  rw [Parsing.parseToken_eq]
  dsimp only
  rcases x s with ⟨_ | _, s1⟩
  · exact ⟨t, rfl, (Bool.noConfusion ·)⟩
  · exact ⟨_, rfl, fun _ => Tree.planted_makeRoot ht kind _⟩

/-- A composite grows its parts under a node of its own, or makes a leaf where they yield
nothing. -/
theorem plants_composite {fill : NodeId → ParseM Bool} {x : ScanM Bool}
    {f : Scanner → List Shape} (h : ∀ p, Builds p (fill p) x f) (hgrow : ∀ p, Grows (fill p)) :
    Plants (parseComposite kind fill) (recognizeComposite kind x) fun s =>
      .gather kind ((recognizeComposite kind x s).2.consumedSince s.cur) (f s) := by
  intro s t ht
  have hself := Tree.Extends.refl ht
  have hroot := hself.makeRoot kind ""
  have hlt : t.size < (t.makeRoot kind "").2.size := Tree.size_makeRoot ▸ Nat.lt_succ_self t.size
  have hnew : (t.makeRoot kind "").2.node t.size = { kind } := by
    rw [Tree.node_makeRoot, if_pos rfl]
  rcases h t.size s _ hroot.sound hlt (by rw [hnew]) with ⟨u, he, hg⟩
  have hback := ((hgrow t.size s _ _ _ u hroot.sound he).trans hroot).rollback_eq ht
  dsimp only
  rw [Parsing.parseComposite_eq, recognizeComposite, he]
  rcases hx : x s with ⟨_ | _, s1⟩
  · exact ⟨u.rollback t.size, rfl, (Bool.noConfusion ·)⟩
  · rw [hx] at hg
    have hu := hg rfl
    have hcount : (u.node t.size).count = (f s).length := by
      refine hu.count_eq hlt ?_
      rw [(ht.laidOut.makeRoot kind "").children_eq, ht.laidOut.dead _ (Nat.le_refl _)]
    have hlive : t.size < u.size := hu.size_eq ▸ Nat.lt_add_right _ hlt
    dsimp only
    rw [Tree.lookup_of_lt hlive]
    dsimp only
    rw [hcount, hback]
    -- whether the parts yielded a node
    cases hf : f s with
    | nil => exact ⟨_, rfl, fun _ => Tree.planted_makeRoot ht kind _⟩
    | cons y ys =>
      rw [hf] at hu
      exact ⟨u, rfl, fun _ => hu.planted ht⟩

/-! ## Nodes under a parent -/

theorem builds_liftScan (x : ScanM Bool) : Builds p (liftScan x) x fun _ => [] :=
  fun _ t ht _ _ => ⟨t, rfl, fun _ => .refl ht p⟩

/-- A node that is planted is attached, since the parent takes it and it is new. -/
theorem Plants.attachResult {z : ParseM (Option NodeId)} {x : ScanM Bool} {f : Scanner → Shape}
    (h : Plants z x f) : Builds p (attachResult kind z p) x fun s => [f s] := by
  intro s t ht hp hv
  rcases h s t ht with ⟨u, he, hg⟩
  rw [Parsing.attachResult_eq, he]
  rcases hx : x s with ⟨_ | _, s1⟩
  · exact ⟨u.rollback t.size, rfl, (Bool.noConfusion ·)⟩
  · rw [hx] at hg
    rcases (hg rfl).graft ht hp hv with ⟨v, ha, hgraft⟩
    simp only [if_true, ha]
    exact ⟨v, rfl, fun _ => hgraft⟩

theorem builds_tokenUnder (x : ScanM Bool) : Builds p (parseTokenUnder kind x p) x fun s =>
    enclose kind ((x s).2.consumedSince s.cur) [] := by
  unfold parseTokenUnder enclose
  split
  · exact builds_liftScan x
  · exact (plants_token x).attachResult

theorem builds_compositeUnder {fill : NodeId → ParseM Bool} {x : ScanM Bool}
    {f : Scanner → List Shape} (h : ∀ p, Builds p (fill p) x f) (hgrow : ∀ p, Grows (fill p)) :
    Builds p (parseCompositeUnder kind fill p) (recognizeComposite kind x) fun s =>
      enclose kind ((recognizeComposite kind x s).2.consumedSince s.cur) (f s) := by
  by_cases hk : kind = untyped
  · simp only [hk, enclose_of_untyped]
    intro s t ht hp hv
    rcases h p s t ht hp hv with ⟨u, he, hg⟩
    rw [Parsing.parseCompositeUnder_of_untyped, recognizeComposite, he]
    rcases hx : x s with ⟨_ | _, s1⟩
    · exact ⟨u.rollback t.size, rfl, (Bool.noConfusion ·)⟩
    · rw [hx] at hg
      exact ⟨u, rfl, hg⟩
  · rw [Parsing.parseCompositeUnder_of_typed hk]
    simp only [enclose_of_typed hk]
    exact (plants_composite h hgrow).attachResult

end Actions

/-! ## All rules -/

section Plain

variable {r : Rule}

theorem IsPlain.of_part {part : Rule} (hr : r.IsPlain) (hp : part ∈ r.parts) : part.IsPlain := by
  cases r with
  | seq kind parts => exact arePlain_iff.mp hr part hp
  | choice kind alternatives => exact arePlain_iff.mp hr part hp
  | repetition | notAhead | ahead =>
    rw [List.mem_singleton.mp hp]
    exact hr
  | literal | charClass | builtin | custom => cases hp

/-- Without custom rules there is none that could leave something behind. -/
theorem IsPlain.isTidy (hr : r.IsPlain) : r.IsTidy := by
  induction r using part_induction with
  | step r ih =>
  intro c hc
  rcases mem_subrules.mp hc with rfl | ⟨part, hp, hc⟩
  · exact absurd hr id
  · exact ih part hp (hr.of_part hp) c hc

theorem IsPlain.grows (hr : r.IsPlain) (p : NodeId) : Grows (r.fillUnder p) :=
  grows_fillUnder fun _ hp => undoes_of_tidy _ (hr.of_part hp).isTidy p

/-- The text that a matching rule consumes is the text since the bookmark from before it. -/
theorem consumed_eq {s : Scanner} (hr : r.IsPlain) (hm : (r.recognize s).1 = true) :
    r.consumed s = (r.recognize s).2.consumedSince s.cur := by
  unfold consumed
  dsimp only
  split
  · next hs =>
    rcases matched_text hr hs hm with ⟨cs, hbytes, htext⟩
    rw [hbytes, htext, Utf8.lossy_encode]
  · rfl

/-- Its bytes are those between the cursors. -/
theorem bytes_consumed {s : Scanner} (hr : r.IsPlain) (hs : s.InBounds)
    (hm : (r.recognize s).1 = true) :
    Utf8.bytes (r.consumed s) = (s.buf.extract s.cur.stop (r.recognize s).2.cur.stop).toList := by
  rcases matched_text hr hs hm with ⟨cs, hbytes, htext⟩
  rw [consumed_eq hr hm, hbytes, htext, Utf8.bytes_eq_encode, String.toList_ofList]

/-- What a composite rule does with its parts is all that decides what it builds. -/
theorem builds_composite (hr : r.IsPlain) (hc : r.isComposite = true)
    (h : ∀ p, Builds p (r.fillUnder p) r.fill r.forestOfParts) (p : NodeId) :
    Builds p (r.parseUnder p) r.recognize r.forest := by
  have hunder : Builds p (r.parseUnder p) r.recognize fun s =>
      enclose r.kind ((r.recognize s).2.consumedSince s.cur) (r.forestOfParts s) := by
    rw [parseUnder_of_composite hc, recognize_of_composite hc]
    exact builds_compositeUnder h hr.grows
  refine hunder.congr fun s hm => ?_
  rw [forest_of_composite hc]
  show _ = enclose r.kind (r.consumed s) (r.forestOfParts s)
  rw [consumed_eq hr hm]

/-- Every rule without custom rules builds what it yields, one case for each kind of rule. -/
theorem builds_of_plain (r : Rule) (hr : r.IsPlain) (p : NodeId) :
    Builds p (r.parseUnder p) r.recognize r.forest := by
  -- on the rule, under every parent at once, since a typed composite makes its own
  induction r using part_induction generalizing p with
  | step r ih =>
  by_cases hc : r.isComposite = true
  · refine builds_composite hr hc (fun p => ?_) p
    exact builds_fillUnder hc (fun part hp => ih part hp (hr.of_part hp) p)
      fun part hp => undoes_of_tidy part (hr.of_part hp).isTidy p
  cases r with
  | seq | choice | repetition => exact absurd rfl hc
  | notAhead | ahead =>
    rw [parseUnder]
    exact builds_liftScan _
  | literal | charClass | builtin =>
    rw [parseUnder]
    refine (builds_tokenUnder _).congr fun s hm => ?_
    rw [forest, consumed_eq hr hm]
  | custom c => exact absurd hr id

/-- A composite rule without custom rules makes one node for what its parts yield. -/
theorem plants_of_plain (hr : r.IsPlain) (hc : r.isComposite = true) :
    Plants r.parse r.recognize r.shape := by
  have hfill : ∀ p, Builds p (r.fillUnder p) r.fill r.forestOfParts := fun p =>
    builds_fillUnder hc (fun part hp => builds_of_plain part (hr.of_part hp) p)
      fun part hp => undoes_of_tidy part (hr.of_part hp).isTidy p
  have hplants : Plants r.parse r.recognize fun s =>
      .gather r.kind ((r.recognize s).2.consumedSince s.cur) (r.forestOfParts s) := by
    rw [parse_of_composite hc, recognize_of_composite hc]
    exact plants_composite hfill hr.grows
  refine hplants.congr fun s hm => ?_
  rw [shape, consumed_eq hr hm]

/-- Parsing a rule without custom rules answers as recognising it does, whatever the tree. -/
theorem parse_run_of_plain (hr : r.IsPlain) (s : Scanner) {t : Tree} (ht : t.Sound) :
    ∃ root u, r.parse s t = .ok ((root, (r.recognize s).2), u) ∧
      root.isSome = (r.recognize s).1 := by
  have hsome : ∀ b : Bool, (if b then some t.size else none).isSome = b := by
    intro b
    cases b <;> rfl
  by_cases hc : r.isComposite = true
  · rcases plants_of_plain hr hc s t ht with ⟨u, he, _⟩
    exact ⟨_, u, he, hsome _⟩
  cases r with
  | seq | choice | repetition => exact absurd rfl hc
  | notAhead kind body | ahead kind body =>
    rw [parse, Parsing.parseLookahead_eq]
    rcases recognize _ s with ⟨_ | _, s1⟩
    · exact ⟨none, t, rfl, rfl⟩
    · exact ⟨some t.size, _, rfl, rfl⟩
  | literal | charClass | builtin =>
    rcases plants_token (recognize _) s t ht with ⟨u, he, _⟩
    exact ⟨_, u, he, hsome _⟩
  | custom c => exact absurd hr id

/-! ## What a caller sees -/

/-- Recognising a rule, parsing it and putting it under a node give one answer and leave one
scanner, whatever the scanner and whatever the tree. -/
theorem parse_agrees_with_recognize (hr : r.IsPlain) (s : Scanner) {t : Tree} (ht : t.WellFormed)
    {p : NodeId} (hp : p < t.size) (hv : (t.node p).value = "") :
    ∃ root u v, r.parse s t = .ok ((root, (r.recognize s).2), u) ∧
      root.isSome = (r.recognize s).1 ∧ r.parseUnder p s t = .ok (r.recognize s, v) := by
  rcases parse_run_of_plain hr s ht.sound with ⟨root, u, he, hsome⟩
  rcases builds_of_plain r hr p s t ht.sound hp hv with ⟨v, he', _⟩
  exact ⟨root, u, v, he, hsome, he'⟩

/-- A typed sequence whose last part fails, with an error from before that the limit counts. -/
theorem parse_agrees_with_recognize_cut :
    let r := seq 1 [oneOrMore 2 (builtin .digit), choice 0 [literal 3 "a", literal 4 "b"]]
    let s : Scanner := { Scanner.ofText "12b" with
      errors := #[⟨-1, .origin⟩], options := { maxErrors := some 2 } }
    let t := (Tree.Call.makeRoot untyped "").run {}
    r.IsPlain ∧ t.WellFormed ∧ 0 < t.size ∧ (t.node 0).value = "" ∧ (r.recognize s).1 = false ∧
      ∃ u v, r.parse s t = .ok ((none, (r.recognize s).2), u) ∧
        r.parseUnder 0 s t = .ok (r.recognize s, v) := by
  intro r s t
  have hr : r.IsPlain := ⟨trivial, ⟨trivial, trivial, trivial⟩, trivial⟩
  have ht : t.WellFormed :=
    (Tree.Reachable.empty.call (.makeRoot untyped "") (by decide)).sound.wellFormed
  have hx : (r.recognize s).1 = false := by decide +kernel
  rcases parse_agrees_with_recognize hr s ht (p := 0) (by decide) rfl with
    ⟨root, u, v, he, hsome, he'⟩
  rw [hx, Option.isSome_eq_false_iff, Option.isNone_iff_eq_none] at hsome
  rw [hsome] at he
  exact ⟨hr, ht, by decide, rfl, hx, u, v, he, he'⟩

/-- Putting a rule under a node adds the forest of the match behind the children of that node,
numbered in preorder from the first new index on, and changes nothing else. A composite rule that
is parsed makes one node for what its parts yield, numbered in the same way. The text that a leaf of
the forest holds is made of the bytes between the cursor before its rule and the cursor after it. -/
theorem parse_builds_forest (hr : r.IsPlain) (s : Scanner) {t : Tree} (ht : t.WellFormed) :
    (∀ p < t.size, (t.node p).value = "" →
      ∃ u, r.parseUnder p s t = .ok (r.recognize s, u) ∧
        ((r.recognize s).1 = true → t.Grafted p (r.forest s) u ∧ t.SparesBut p u ∧
          (Shape.rootsFrom t.size (r.forest s)).flatMap u.preorder =
            List.range' t.size (Shape.sizes (r.forest s)))) ∧
    (r.isComposite = true →
      ∃ u, r.parse s t =
          .ok ((if (r.recognize s).1 then some t.size else none, (r.recognize s).2), u) ∧
        ((r.recognize s).1 = true → t.Planted (r.shape s) u ∧
          u.preorder t.size = List.range' t.size (r.shape s).size)) ∧
    (s.InBounds → (r.recognize s).1 = true → Utf8.bytes (r.consumed s) =
      (s.buf.extract s.cur.stop (r.recognize s).2.cur.stop).toList) := by
  refine ⟨?_, ?_, bytes_consumed hr⟩
  · intro p hp hv
    rcases builds_of_plain r hr p s t ht.sound hp hv with ⟨u, he, hg⟩
    refine ⟨u, he, fun hm => ?_⟩
    have hu := hg hm
    refine ⟨hu, hu.sparesBut ht.sound hp, ?_⟩
    exact hu.wellFormed.sound.preorder_of_standEach hu.stands
      (hu.size_eq ▸ Nat.le_add_left _ _)
  · intro hc
    rcases plants_of_plain hr hc s t ht.sound with ⟨u, he, hg⟩
    refine ⟨u, he, fun hm => ?_⟩
    have hu := hg hm
    exact ⟨hu, hu.wellFormed.sound.preorder_of_stands hu.stands
      (hu.size_eq ▸ Nat.le_add_left _ _)⟩

/-- A letter that makes no node, digits that an alternative before them takes the first of, and a
repetition that matches nothing, behind a node that is already there. -/
theorem parse_builds_forest_digits :
    let r := seq 1 [literal 0 "a",
      choice 0 [seq 3 [literal 4 "1", literal 5 "x"], oneOrMore 0 (builtin .digit)],
      zeroOrMore 7 (literal 8 "z")]
    let s := Scanner.ofText "a12"
    let t := (Tree.Call.addChild 0 9 "x").run ((Tree.Call.makeRoot untyped "").run {})
    r.IsPlain ∧ t.WellFormed ∧ 0 < t.size ∧ (t.node 0).value = "" ∧
      r.forest s = [.node 1 "" [.node (-7) "1" [], .node (-7) "2" [], .node 7 "" []]] ∧
      ∃ u, r.parseUnder 0 s t = .ok (r.recognize s, u) ∧ u.children 0 = [1, 2] ∧
        u.children 2 = [3, 4, 5] ∧ u.size = 6 := by
  intro r s t
  have hr : r.IsPlain :=
    ⟨trivial, ⟨⟨trivial, trivial, trivial⟩, trivial, trivial⟩, trivial, trivial⟩
  have h0 := Tree.Reachable.empty.call (.makeRoot untyped "") (by decide)
  have ht : t.WellFormed := (h0.call (.addChild 0 9 "x") (by decide)).sound.wellFormed
  have hf : r.forest s =
      [.node 1 "" [.node (-7) "1" [], .node (-7) "2" [], .node 7 "" []]] := by decide +kernel
  rcases (parse_builds_forest hr s ht).1 0 (by decide) rfl with ⟨u, he, hg⟩
  rcases hg (by decide +kernel) with ⟨hu, _, _⟩
  rw [hf] at hu
  refine ⟨hr, ht, by decide, rfl, hf, u, he, hu.children_eq 0 (by decide), ?_, hu.size_eq⟩
  exact hu.stands.1.2.2.1

end Plain

end PegKit.Rule
