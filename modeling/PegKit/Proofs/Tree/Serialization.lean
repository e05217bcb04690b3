import PegKit.Proofs.Tree.Subtree
import PegKit.Tree.Writer

/-! # Written trees

* `Shape.text`: the JSON text of a node by recursion on its shape, with a free choice of how values
  are quoted.
* `Sound.toJson_eq`: the writer with its stack puts out that text. What stands beside the node and
  above it does not matter.
-/

namespace PegKit

namespace Shape

mutual

/-- The text of a node and of what is below it. -/
def text (quote : String → String) : Shape → String
  | node kind value nodes =>
    "\x7b\"T\":" ++ kind.render ++ (if value = "" then "" else ",\"V\":" ++ quote value) ++
      (if nodes = [] then ""
        else ",\"N\":[" ++ ",".intercalate (texts quote nodes) ++ "]") ++ "\x7d"

/-- The texts of the trees of a forest. -/
def texts (quote : String → String) : List Shape → List String
  | [] => []
  | x :: xs => x.text quote :: texts quote xs

end

end Shape

open Shape

namespace Tree

variable {t : Tree} {top id : NodeId}

theorem intercalate_cons (sep s : String) (ss : List String) :
    sep.intercalate (s :: ss) = s ++ sep.intercalate ("" :: ss) := by
  rw [← String.intercalate_cons_append, String.append_empty]

/-- The text that the writer puts in front of a node. -/
def comma (t : Tree) (top id : NodeId) : String :=
  if id ≠ top ∧ (t.node id).left.isSome then "," else ""

theorem openText_eq (t : Tree) (top id : NodeId) :
    openText (id ≠ top && (t.node id).left.isSome) (t.node id) = t.comma top id ++
      ("\x7b\"T\":" ++ (t.node id).kind.render ++ (if (t.node id).value = "" then ""
        else ",\"V\":" ++ Json.quoteCanonical (t.node id).value)) := by
  unfold openText comma
  simp only [Bool.and_eq_true, decide_eq_true_eq, String.append_assoc]

/-- Entering a node, with enough fuel, puts out its text and leaves what else there is to do. -/
def Writes (t : Tree) (top id : NodeId) : Prop :=
  ∃ n ≤ 2 * (t.shape id).size, ∀ fuel steps out,
    t.writeSteps top (fuel + n) (.enter id :: steps) out =
      t.writeSteps top fuel steps (out ++ (t.comma top id ++ (t.shape id).text Json.quoteCanonical))

/-- The text of a node whose children have the texts `texts`. -/
def objectText (quote : String → String) (kind : Kind) (value : String) (texts : List String) :
    String :=
  "\x7b\"T\":" ++ kind.render ++ (if value = "" then "" else ",\"V\":" ++ quote value) ++
    (if texts = [] then "" else ",\"N\":[" ++ ",".intercalate texts ++ "]") ++ "\x7d"

theorem text_eq_objectText (quote : String → String) (kind : Kind) (value : String)
    (f : List Shape) : (Shape.node kind value f).text quote =
      objectText quote kind value (f.map (Shape.text quote)) := by
  have htexts : ∀ g, Shape.texts quote g = g.map (Shape.text quote) := by
    intro g
    induction g with
    | nil => rfl
    | cons x g ih => rw [Shape.texts, ih, List.map_cons]
  rw [Shape.text, objectText, htexts]
  simp only [List.map_eq_nil_iff]

namespace Sound

/-- The text of a node by recursion on the tree. -/
theorem text_shape (h : t.Sound) (quote : String → String) (id : NodeId) :
    (t.shape id).text quote = objectText quote (t.node id).kind (t.node id).value
      ((t.children id).map fun c => (t.shape c).text quote) := by
  rw [h.shape_eq, text_eq_objectText, List.map_map]
  rfl

/-- The children of a node come on the stack in their order, in front of what closes the node. -/
theorem push_children (h : t.Sound) (id : NodeId) (steps : List Step) :
    (t.childrenFromLast id).foldl (fun st c => .enter c :: st) steps =
      (t.children id).map Step.enter ++ steps := by
  rw [h.childrenFromLast_eq]
  generalize t.children id = cs
  induction cs with
  | nil => rfl
  | cons c cs ih => rw [List.reverse_cons, List.foldl_append, ih]; rfl

/-- Below the top, a node is written after a comma exactly if it is not the first child. -/
theorem comma_child (h : t.Sound) (hid : t.Under id top) {l r : List NodeId} {c : NodeId}
    (hlr : t.children id = l ++ c :: r) : t.comma top c = if l = [] then "" else "," := by
  rcases h.laidOut.place id l c r hlr with ⟨_, hp, hleft, _⟩
  have htop : c ≠ top := by
    rintro rfl
    exact h.acyclic hp hid
  unfold comma
  rw [hleft]
  cases l with
  | nil => rw [if_neg (by rintro ⟨_, hs⟩; cases hs), if_pos rfl]
  | cons a l =>
    rw [List.getLast?_cons, if_pos ⟨htop, rfl⟩, if_neg (List.cons_ne_nil a l)]

/-- The children behind the first one are each written after a comma. -/
theorem writeSteps_children (h : t.Sound) (hid : t.Under id top)
    (hw : ∀ c ∈ t.children id, t.Writes top c) (l r : List NodeId) (hl : l ≠ [])
    (hlr : t.children id = l ++ r) :
    ∃ n ≤ 2 * sizes (r.map t.shape), ∀ fuel steps out,
      t.writeSteps top (fuel + n) (r.map .enter ++ steps) out =
        t.writeSteps top fuel steps
          (out ++ ",".intercalate ("" :: texts Json.quoteCanonical (r.map t.shape))) := by
  induction r generalizing l with
  | nil =>
    refine ⟨0, Nat.zero_le _, fun fuel steps out => ?_⟩
    show _ = t.writeSteps top fuel steps (out ++ ",".intercalate [""])
    rw [String.intercalate_singleton, String.append_empty]
    rfl
  | cons c r ih =>
    rcases hw c (hlr ▸ List.mem_append_cons_self) with ⟨n, hn, hc⟩
    rcases ih (l ++ [c]) (by simp) (by rw [hlr, List.append_assoc, List.singleton_append]) with
      ⟨m, hm, hr⟩
    refine ⟨m + n, ?_, fun fuel steps out => ?_⟩
    · rw [List.map_cons, sizes]
      omega
    · have hbehind : ",".intercalate ("" :: texts Json.quoteCanonical ((c :: r).map t.shape)) =
          "," ++ ((t.shape c).text Json.quoteCanonical ++
            ",".intercalate ("" :: texts Json.quoteCanonical (r.map t.shape))) := by
        rw [List.map_cons, texts, String.intercalate_cons_cons, String.empty_append,
          intercalate_cons]
      rw [List.map_cons, List.cons_append, ← Nat.add_assoc, hc, hr, h.comma_child hid hlr,
        if_neg hl, hbehind]
      simp only [String.append_assoc]

theorem writes_leaf (h : t.Sound) (hlt : id < t.size) (hc : t.children id = []) :
    t.Writes top id := by
  have hlast : (t.node id).last = none := by rw [(h.laidOut.ends id hlt).2.1, hc]; rfl
  refine ⟨1, ?_, fun fuel steps out => ?_⟩
  · rw [h.shape_eq, Shape.size]
    omega
  · rw [writeSteps, openText_eq, hlast, h.shape_eq, hc]
    show t.writeSteps top fuel steps _ = t.writeSteps top fuel steps _
    congr 1
    rw [List.map_nil, Shape.text, if_pos rfl, String.append_empty]
    simp only [String.append_assoc]

theorem writes_branch (h : t.Sound) (hid : t.Under id top) (hlt : id < t.size) {c : NodeId}
    {cs : List NodeId} (hcs : t.children id = c :: cs)
    (hw : ∀ c ∈ t.children id, t.Writes top c) : t.Writes top id := by
  have hlast : ((t.node id).last.isNone) = false := by
    rw [(h.laidOut.ends id hlt).2.1, hcs, List.getLast?_cons]
    rfl
  rcases hw c (hcs ▸ List.mem_cons_self) with ⟨n, hn, hc⟩
  rcases h.writeSteps_children hid hw [c] cs (List.cons_ne_nil c []) hcs with ⟨m, hm, hr⟩
  have hfirst : t.comma top c = "" := by
    rw [h.comma_child hid (l := []) hcs, if_pos rfl]
  -- one step to enter the node, those for its children, and one to leave it
  refine ⟨1 + m + n + 1, ?_, fun fuel steps out => ?_⟩
  · rw [h.shape_eq, hcs, Shape.size, List.map_cons, sizes]
    omega
  · have hfuel : fuel + (1 + m + n + 1) = fuel + 1 + m + n + 1 := by omega
    have hclose : "]\x7d" = "]" ++ "\x7d" := by decide
    rw [hfuel, writeSteps, openText_eq, hlast, h.push_children, hcs, List.map_cons]
    show t.writeSteps top (fuel + 1 + m + n) (.enter c :: (cs.map .enter ++ .leave :: steps)) _ = _
    rw [hc, hr, writeSteps, hfirst, h.shape_eq id, hcs, List.map_cons, Shape.text,
      if_neg (List.cons_ne_nil _ _), texts, intercalate_cons _ (Shape.text _ _)]
    simp only [hclose, String.append_assoc, String.empty_append]

theorem writes (h : t.Sound) (hid : t.Under id top) (hlt : id < t.size) : t.Writes top id := by
  induction id using h.induction_down with
  | step id ih =>
    have hw : ∀ c ∈ t.children id, t.Writes top c := fun c hc =>
      ih c hc (.step (h.mem_children_iff.mp hc) hid) (h.laidOut.lt_of_mem hc)
    cases hcs : t.children id with
    | nil => exact h.writes_leaf hlt hcs
    | cons c cs => exact h.writes_branch hid hlt hcs hw

/-- The steps put out the text of the shape, with any bound that is large enough. -/
theorem writeSteps_eq (h : t.Sound) (hid : id < t.size) {fuel : Nat} (hf : 2 * t.size ≤ fuel) :
    t.writeSteps id fuel [.enter id] "" = (t.shape id).text Json.quoteCanonical := by
  rcases h.writes (.refl id) hid with ⟨n, hn, hw⟩
  have hsize := h.size_shape_le hid
  obtain ⟨more, rfl⟩ : ∃ more, fuel = more + n := ⟨fuel - n, by omega⟩
  have hcomma : t.comma id id = "" := if_neg fun hc => hc.1 rfl
  have hend : ∀ fuel out, t.writeSteps id fuel [] out = out := by
    intro fuel out
    cases fuel with
    | zero => rw [writeSteps]
    | succ fuel =>
      rw [writeSteps]
      nofun
  rw [hw, hend, hcomma, String.empty_append, String.empty_append]

/-- The text of a node is that of its shape. -/
theorem toJson_eq (h : t.Sound) (hid : id < t.size) :
    t.toJson id = .ok ((t.shape id).text Json.quoteCanonical) := by
  rw [toJson, lookup_of_lt hid]
  exact congrArg Except.ok (h.writeSteps_eq hid (Nat.le_refl _))

end Sound

end Tree

end PegKit
