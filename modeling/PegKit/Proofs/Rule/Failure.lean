import PegKit.Proofs.Rule.Parsing
import PegKit.Proofs.Tree.Ownership
import PegKit.Proofs.Tree.WellFormed

/-! # Failed parses

What a rule that fails to parse leaves in the tree.

* `CustomRule.IsTidy`: a parse function builds behind the tree it is given, and may leave what it
  built there when it fails.
* `Grows`, `MakesNew` and `Undoes` say of an action that it only adds nodes, that it returns none
  but nodes it added, and that it adds none where it fails.
* `failed_parse_keeps_tree`: rules undo what their parts leave behind.
-/

namespace PegKit

/-- A custom rule whose parse function makes nodes, edits none but those it made in the same call,
and returns none but those. It may fail and leave nodes behind. -/
def CustomRule.IsTidy (c : CustomRule) : Prop :=
  ∀ parse, c.parse = some parse → ∀ s t o s' u, t.WellFormed → parse s t = .ok ((o, s'), u) →
    Tree.BuiltAbove t.size t u ∧ ∀ id, o = some id → t.size ≤ id

namespace Rule

/-- The custom rules inside a rule are tidy. -/
def IsTidy (r : Rule) : Prop :=
  ∀ c, custom c ∈ r.subrules → c.IsTidy

/-! ## Actions -/

/-- An action that only adds nodes. -/
def Grows (y : ParseM Bool) : Prop :=
  ∀ s t b s' u, t.Sound → y s t = .ok ((b, s'), u) → u.Extends t

/-- An action that only adds nodes, and returns none but an added one. -/
def MakesNew (x : ParseM (Option NodeId)) : Prop :=
  ∀ s t o s' u, t.Sound → x s t = .ok ((o, s'), u) →
    u.Extends t ∧ ∀ id, o = some id → t.size ≤ id

/-- An action that only adds nodes, and none where it fails. -/
def Undoes (y : ParseM Bool) : Prop :=
  ∀ s t b s' u, t.Sound → y s t = .ok ((b, s'), u) → u.Extends t ∧ (b = false → u = t)

theorem Undoes.grows {y : ParseM Bool} (h : Undoes y) : Grows y :=
  fun s t b s' u ht he => (h s t b s' u ht he).1

section Actions

variable {kind : Kind} {y : ParseM Bool} {ys : List (ParseM Bool)}

/-! ## Parts -/

theorem Grows.inOrder (h : ∀ y ∈ ys, Grows y) : Grows (inOrder ys) := by
  -- on the parts: what the first one added stays when the next is run
  induction ys with
  | nil =>
    intro s t b s' u ht he
    cases he
    exact .refl ht
  | cons y ys ih =>
    intro s t b s' u ht he
    rw [Parsing.inOrder_cons] at he
    cases hy : y s t with
    | error e =>
      rw [hy] at he
      cases he
    | ok out =>
      rcases out with ⟨⟨_ | _, s1⟩, u1⟩
      · rw [hy] at he
        cases he
        exact h y List.mem_cons_self _ _ _ _ _ ht hy
      · rw [hy] at he
        have h1 := h y List.mem_cons_self _ _ _ _ _ ht hy
        exact (ih (fun y hy => h y (List.mem_cons_of_mem _ hy)) _ _ _ _ _ h1.sound he).trans h1

theorem Grows.firstOfFrom (h : ∀ y ∈ ys, Grows y) (base : Nat) :
    Grows (firstOfFrom kind base ys) := by
  induction ys with
  | nil =>
    intro s t b s' u ht he
    cases he
    exact .refl ht
  | cons y ys ih =>
    intro s t b s' u ht he
    rw [Parsing.firstOfFrom_cons] at he
    split at he
    · cases he
      exact .refl ht
    cases hy : y s t with
    | error e =>
      rw [hy] at he
      cases he
    | ok out =>
      rcases out with ⟨⟨_ | _, s1⟩, u1⟩
      · rw [hy] at he
        have h1 := h y List.mem_cons_self _ _ _ _ _ ht hy
        exact (ih (fun y hy => h y (List.mem_cons_of_mem _ hy)) _ _ _ _ _ h1.sound he).trans h1
      · rw [hy] at he
        cases he
        exact h y List.mem_cons_self _ _ _ _ _ ht hy

theorem Grows.firstOf (h : ∀ y ∈ ys, Grows y) : Grows (firstOf kind ys) :=
  fun s _ _ _ _ ht he => Grows.firstOfFrom h s.errors.size _ _ _ _ _ ht he

theorem Grows.repeatedFrom (h : Grows y) (min attempts matched : Nat) :
    Grows (repeatedFrom min y attempts matched) := by
  -- on the attempts
  induction attempts generalizing matched with
  | zero =>
    intro s t b s' u ht he
    cases he
    exact .refl ht
  | succ attempts ih =>
    intro s t b s' u ht he
    rw [Parsing.repeatedFrom_succ] at he
    split at he
    · cases he
      exact .refl ht
    cases hy : y s t with
    | error e =>
      rw [hy] at he
      cases he
    | ok out =>
      have h1 := h _ _ _ _ _ ht hy
      rcases out with ⟨⟨_ | _, s1⟩, u1⟩
      · rw [hy] at he
        cases he
        exact h1
      · rw [hy] at he
        dsimp only at he
        split at he
        · cases he
          exact h1
        · exact (ih _ _ _ _ _ _ h1.sound he).trans h1

theorem Grows.repeated (h : Grows y) (min : Nat) (max : Option Nat) :
    Grows (repeated min max y) :=
  fun _ _ _ _ _ ht he => h.repeatedFrom min _ 0 _ _ _ _ _ ht he

/-! ## Nodes -/

theorem makesNew_token (x : ScanM Bool) : MakesNew (parseToken kind x) := by
  intro s t o s' u ht he
  rw [Parsing.parseToken_eq] at he
  rcases hx : x s with ⟨_ | _, s1⟩
  · rw [hx] at he
    cases he
    exact ⟨.refl ht, nofun⟩
  · rw [hx] at he
    cases he
    refine ⟨(Tree.Extends.refl ht).makeRoot _ _, ?_⟩
    intro id hid
    exact Nat.le_of_eq (Option.some.inj hid)

/-- A composite makes the node that its parts grow under, and takes all of them back where they
fail. -/
theorem parseComposite_undoes {fill : NodeId → ParseM Bool} (h : ∀ p, Grows (fill p))
    {s s' : Scanner} {t u : Tree} {o : Option NodeId} (ht : t.Sound)
    (he : parseComposite kind fill s t = .ok ((o, s'), u)) :
    u.Extends t ∧ (∀ id, o = some id → t.size ≤ id) ∧ (o = none → u = t) := by
  have hself := Tree.Extends.refl ht
  have hroot := hself.makeRoot kind ""
  rw [Parsing.parseComposite_eq] at he
  cases hf : fill t.size s (t.makeRoot kind "").2 with
  | error e =>
    rw [hf] at he
    cases he
  | ok out =>
    rcases out with ⟨⟨b, s1⟩, u1⟩
    have h1 := (h _ _ _ _ _ _ hroot.sound hf).trans hroot
    have hback := h1.rollback_eq ht
    rw [hf] at he
    cases b with
    | false =>
      cases he
      rw [hback]
      exact ⟨hself, nofun, fun _ => rfl⟩
    | true =>
      dsimp only at he
      split at he
      · cases he
      split at he
      · cases he
        rw [hback]
        exact ⟨hself.makeRoot _ _, fun id hid => Nat.le_of_eq (Option.some.inj hid), nofun⟩
      · cases he
        exact ⟨h1, fun id hid => Nat.le_of_eq (Option.some.inj hid), nofun⟩

theorem makesNew_composite {fill : NodeId → ParseM Bool} (h : ∀ p, Grows (fill p)) :
    MakesNew (parseComposite kind fill) := by
  intro s t o s' u ht he
  rcases parseComposite_undoes h ht he with ⟨hu, hnew, _⟩
  exact ⟨hu, hnew⟩

/-! ## Nodes under a parent -/

theorem undoes_liftScan (x : ScanM Bool) : Undoes (liftScan x) := by
  intro s t b s' u ht he
  rw [Parsing.liftScan_run] at he
  rcases Prod.mk.inj (Except.ok.inj he) with ⟨_, rfl⟩
  exact ⟨.refl ht, fun _ => rfl⟩

/-- What a parse made is taken back where it fails, and where the tree refuses the node. -/
theorem MakesNew.attachResult {x : ParseM (Option NodeId)} (h : MakesNew x) (p : NodeId) :
    Undoes (attachResult kind x p) := by
  intro s t b s' u ht he
  rw [Parsing.attachResult_eq] at he
  cases hx : x s t with
  | error e =>
    rw [hx] at he
    cases he
  | ok out =>
    rcases out with ⟨⟨o, s1⟩, u1⟩
    rcases h _ _ _ _ _ ht hx with ⟨h1, hnew⟩
    have hback := h1.rollback_eq ht
    rw [hx] at he
    cases o with
    | none =>
      cases he
      rw [hback]
      exact ⟨.refl ht, fun _ => rfl⟩
    | some id =>
      dsimp only at he
      split at he
      · next v ha =>
        cases he
        exact ⟨h1.attach (hnew id rfl) ha, nofun⟩
      · cases he
      · cases he
        rw [hback]
        exact ⟨.refl ht, fun _ => rfl⟩

theorem undoes_tokenUnder (x : ScanM Bool) (p : NodeId) : Undoes (parseTokenUnder kind x p) := by
  unfold parseTokenUnder
  split
  · exact undoes_liftScan x
  · exact (makesNew_token x).attachResult p

/-- An untyped composite takes back what its parts put straight under the parent. -/
theorem undoes_compositeUnder {fill : NodeId → ParseM Bool} (h : ∀ p, Grows (fill p))
    (p : NodeId) : Undoes (parseCompositeUnder kind fill p) := by
  by_cases hk : kind = untyped
  · intro s t b s' u ht he
    rw [hk, Parsing.parseCompositeUnder_of_untyped] at he
    cases hf : fill p s t with
    | error e =>
      rw [hf] at he
      cases he
    | ok out =>
      rcases out with ⟨⟨b1, s1⟩, u1⟩
      have h1 := h p _ _ _ _ _ ht hf
      rw [hf] at he
      cases b1 with
      | false =>
        cases he
        rw [h1.rollback_eq ht]
        exact ⟨.refl ht, fun _ => rfl⟩
      | true =>
        cases he
        exact ⟨h1, nofun⟩
  · rw [Parsing.parseCompositeUnder_of_typed hk]
    exact (makesNew_composite h).attachResult p

theorem undoes_customUnder {c : CustomRule} (h : c.IsTidy) (p : NodeId) :
    Undoes (parseCustomUnder c p) := by
  unfold parseCustomUnder
  cases hc : c.parse with
  | none => exact undoes_tokenUnder _ p
  | some parse =>
    have hnew : MakesNew parse := by
      intro s t o s' u ht he
      rcases h parse hc s t o s' u ht.wellFormed he with ⟨hb, hid⟩
      exact ⟨hb.extends ht, hid⟩
    exact hnew.attachResult p

end Actions

/-! ## All rules -/

theorem IsTidy.of_part {r part : Rule} (h : r.IsTidy) (hp : part ∈ r.parts) : part.IsTidy :=
  fun c hc => h c (mem_subrules.mpr (Or.inr ⟨part, hp, hc⟩))

/-- What a composite rule does with its parts only adds nodes, if each part undoes what it did where
it fails. -/
theorem grows_fillUnder {r : Rule} {p : NodeId}
    (h : ∀ part ∈ r.parts, Undoes (part.parseUnder p)) : Grows (r.fillUnder p) := by
  have heach : ∀ {rs : List Rule}, (∀ part ∈ rs, Undoes (part.parseUnder p)) →
      ∀ y ∈ parseEachUnder rs p, Grows y := by
    intro rs hrs y hy
    rw [Parsing.parseEachUnder_eq_map] at hy
    rcases List.mem_map.mp hy with ⟨part, hpart, rfl⟩
    exact (hrs part hpart).grows
  cases r with
  | seq kind parts => exact .inOrder (heach h)
  | choice kind alternatives => exact .firstOf (heach h)
  | repetition kind body min max =>
    have hbody := (h body (List.mem_singleton_self body)).grows
    exact hbody.repeated min max
  | notAhead | ahead | literal | charClass | builtin | custom =>
    intro s t b s' u ht he
    cases he
    exact .refl ht

/-- Every rule undoes what it did where it fails, one case for each kind of rule. -/
theorem undoes_of_tidy (r : Rule) (hr : r.IsTidy) (p : NodeId) : Undoes (r.parseUnder p) := by
  -- on the rule, under every parent at once, since a typed composite makes its own
  induction r using part_induction generalizing p with
  | step r ih =>
  have hfill : ∀ p, Grows (r.fillUnder p) :=
    fun p => grows_fillUnder fun part hp => ih part hp (hr.of_part hp) p
  cases r with
  | seq | choice | repetition =>
    rw [parseUnder_of_composite rfl]
    exact undoes_compositeUnder hfill p
  | notAhead | ahead =>
    rw [parseUnder]
    exact undoes_liftScan _
  | literal | charClass | builtin =>
    rw [parseUnder]
    exact undoes_tokenUnder _ p
  | custom c =>
    rw [parseUnder]
    exact undoes_customUnder (hr c (mem_subrules.mpr (Or.inl rfl))) p

/-- A rule that fails leaves the tree as it was, node by node and link by link, when it is put under
a node; and when it makes a node of its own, if it is a composite one. Custom rules inside it may
leave behind what they made. -/
theorem failed_parse_keeps_tree {r : Rule} (hr : r.IsTidy) {t : Tree} (ht : t.WellFormed)
    (s s' : Scanner) (u : Tree) :
    (∀ p < t.size, r.parseUnder p s t = .ok ((false, s'), u) → u = t) ∧
      (r.isComposite = true → r.parse s t = .ok ((none, s'), u) → u = t) := by
  constructor
  · intro p _ he
    exact (undoes_of_tidy r hr p s t false s' u ht.sound he).2 rfl
  · intro hc he
    have hfill : ∀ p, Grows (r.fillUnder p) :=
      fun p => grows_fillUnder fun part hp => undoes_of_tidy part (hr.of_part hp) p
    rw [parse_of_composite hc] at he
    exact (parseComposite_undoes hfill ht.sound he).2.2 rfl

/-- A custom rule that fails and leaves a node with a child behind. -/
def litter : CustomRule where
  kind := 5
  name := "litter"
  recognize := fun s => (false, s.expect 5)
  parse := some fun s t => .ok ((none, s.expect 5),
    (Tree.Call.addChild t.size 6 "x").run ((Tree.Call.makeRoot 5 "").run t))

theorem isTidy_litter : litter.IsTidy := by
  intro parse hp s t o s' u _ he
  cases hp
  cases he
  refine ⟨.call _ (.call _ .refl nofun nofun) ?_ ?_, nofun⟩
  · intro id hid
    rw [List.mem_singleton.mp hid]
    exact Tree.size_makeRoot ▸ Nat.lt_succ_self t.size
  · intro id hid
    exact Nat.le_of_eq (List.mem_singleton.mp hid).symm

/-- Behind a letter that is already put under a node with a child of its own. -/
theorem failed_parse_keeps_tree_litter :
    let r := seq untyped [literal 2 "a", custom litter]
    let s := Scanner.ofText "ab"
    let t := (Tree.Call.addChild 0 1 "x").run ((Tree.Call.makeRoot untyped "").run {})
    r.IsTidy ∧ t.WellFormed ∧ 0 < t.size ∧ r.isComposite = true ∧
      (∃ s', r.parseUnder 0 s t = .ok ((false, s'), t)) ∧
      ∃ s', r.parse s t = .ok ((none, s'), t) := by
  intro r s t
  have hr : r.IsTidy := by
    intro c hc
    have hc : c = litter := by simpa [r, subrules, subrulesEach] using hc
    exact hc ▸ isTidy_litter
  have h0 := Tree.Reachable.empty.call (.makeRoot untyped "") (by decide)
  have h1 : t.WellFormed := (h0.call (.addChild 0 1 "x") (by decide)).sound.wellFormed
  have hunder : ∃ s' u, r.parseUnder 0 s t = .ok ((false, s'), u) := ⟨_, _, rfl⟩
  have hparse : ∃ s' u, r.parse s t = .ok ((none, s'), u) := ⟨_, _, rfl⟩
  rcases hunder with ⟨s1, u1, e1⟩
  rcases hparse with ⟨s2, u2, e2⟩
  have hu1 : u1 = t := (failed_parse_keeps_tree hr h1 s s1 u1).1 0 (by decide) e1
  have hu2 : u2 = t := (failed_parse_keeps_tree hr h1 s s2 u2).2 rfl e2
  rw [hu1] at e1
  rw [hu2] at e2
  exact ⟨hr, h1, by decide, rfl, ⟨s1, e1⟩, s2, e2⟩

end Rule

end PegKit
