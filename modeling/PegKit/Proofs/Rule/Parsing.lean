import PegKit.Proofs.Rule.Breakage
import PegKit.Rule.Parse

/-! # Parsing step by step

Parsing, read as functions of a scanner and a tree.

* `bind_run` and its neighbours: what the single actions do.
* `parseToken_eq`, `attachResult_eq`, `parseComposite_eq`: what the steps of parsing come to.
* `inOrder_cons`, `firstOfFrom_cons` and `repeatedFrom_succ`: what one step of a composite rule
  does.
* `Rule.fill` and `Rule.fillUnder` are what a composite rule does with its parts, and
  `parseUnder_of_composite` and its like are all that it does besides.
-/

namespace PegKit.Rule

namespace Parsing

/-! ## Actions -/

section Actions

variable {α β : Type} (s : Scanner) (t : Tree)

theorem bind_run (x : ParseM α) (f : α → ParseM β) : (x >>= f) s t =
    match x s t with
    | .error e => .error e
    | .ok ((a, s'), u) => f a s' u := by
  simp only [bind, StateT.bind, Except.bind]
  rcases x s t with e | ⟨⟨a, s'⟩, u⟩ <;> rfl

theorem getScanner_run : (getThe Scanner : ParseM Scanner) s t = .ok ((s, s), t) := rfl

theorem getTree_run : (getThe Tree : ParseM Tree) s t = .ok ((t, s), t) := rfl

theorem liftScan_run (x : ScanM Bool) : liftScan x s t = .ok (x s, t) := rfl

theorem makeRoot_run (kind : Kind) (value : String) :
    makeRoot kind value s t = .ok ((t.size, s), (t.makeRoot kind value).2) := rfl

theorem lift_run (e : Except TreeError α) : (liftM e : ParseM α) s t =
    match e with
    | .error e => .error e
    | .ok a => .ok ((a, s), t) := by
  cases e <;> rfl

end Actions

/-! ## Tokens and lookahead -/

section Steps

variable {kind : Kind} {s : Scanner} {t : Tree}

theorem parseToken_eq (x : ScanM Bool) : parseToken kind x s t =
    match x s with
    | (true, s') => .ok ((some t.size, s'), (t.makeRoot kind (s'.consumedSince s.cur)).2)
    | (false, s') => .ok ((none, s'), t) := by
  simp only [parseToken, bind_run, getScanner_run, liftScan_run]
  rcases x s with ⟨_ | _, s'⟩ <;> rfl

theorem parseLookahead_eq (x : ScanM Bool) : parseLookahead kind x s t =
    match x s with
    | (true, s') => .ok ((some t.size, s'), (t.makeRoot kind "").2)
    | (false, s') => .ok ((none, s'), t) := by
  simp only [parseLookahead, bind_run, liftScan_run]
  rcases x s with ⟨_ | _, s'⟩ <;> rfl

/-! ## Attaching -/

/-- A node that is made is attached, or everything made with it is forgotten. -/
theorem attachResult_eq (parse : ParseM (Option NodeId)) (p : NodeId) :
    attachResult kind parse p s t =
      match parse s t with
      | .error e => .error e
      | .ok ((none, s'), u) => .ok ((false, s'), u.rollback t.size)
      | .ok ((some id, s'), u) =>
        match u.attach p id with
        | .ok v => .ok ((true, s'), v)
        | .error (.unknownNode id) => .error (.unknownNode id)
        | .error _ => .ok ((false, s'.failAt s.cur kind), u.rollback t.size) := by
  simp only [attachResult, bind_run, getScanner_run, getTree_run]
  rcases parse s t with e | ⟨⟨_ | id, s'⟩, u⟩
  · rfl
  · rfl
  · simp only [bind_run, getTree_run]
    rcases u.attach p id with e | v
    · cases e <;> rfl
    · rfl

/-! ## Composite rules -/

/-- A composite makes its node before its parts are run. It goes when they fail, and when none of
them made a node. -/
theorem parseComposite_eq (fill : NodeId → ParseM Bool) : parseComposite kind fill s t =
    match fill t.size s (t.makeRoot kind "").2 with
    | .error e => .error e
    | .ok ((false, s'), u) =>
      .ok ((none, s'.failComposite s.cur kind s.errors.size), u.rollback t.size)
    | .ok ((true, s'), u) =>
      match u.lookup t.size with
      | .error e => .error e
      | .ok n =>
        if n.count = 0 then
          .ok ((some (u.rollback t.size).size, s'),
            ((u.rollback t.size).makeRoot kind (s'.consumedSince s.cur)).2)
        else .ok ((some t.size, s'), u) := by
  simp only [parseComposite, bind_run, getScanner_run, getTree_run, makeRoot_run]
  rcases fill t.size s (t.makeRoot kind "").2 with e | ⟨⟨_ | _, s'⟩, u⟩
  · rfl
  · rfl
  · simp only [if_true, bind_run, getTree_run, lift_run]
    rcases u.lookup t.size with e | n
    · rfl
    · simp only
      split <;> rfl

theorem parseCompositeUnder_of_typed (h : kind ≠ untyped) (fill : NodeId → ParseM Bool)
    (p : NodeId) : parseCompositeUnder kind fill p =
      attachResult kind (parseComposite kind fill) p := by
  rw [parseCompositeUnder, if_pos h]

/-- An untyped composite has its parts put their nodes where it is put itself. -/
theorem parseCompositeUnder_of_untyped (fill : NodeId → ParseM Bool) (p : NodeId) :
    parseCompositeUnder untyped fill p s t =
      match fill p s t with
      | .error e => .error e
      | .ok ((true, s'), u) => .ok ((true, s'), u)
      | .ok ((false, s'), u) =>
        .ok ((false, s'.failComposite s.cur untyped s.errors.size), u.rollback t.size) := by
  rw [parseCompositeUnder, if_neg (not_not_intro rfl)]
  simp only [bind_run, getScanner_run, getTree_run]
  rcases fill p s t with e | ⟨⟨_ | _, s'⟩, u⟩ <;> rfl

end Steps

/-! ## One step of a composite rule -/

section Parts

variable (y : ParseM Bool) (ys : List (ParseM Bool)) (s : Scanner) (t : Tree)

/-- A sequence goes on where its first part matches. -/
theorem inOrder_cons : inOrder (y :: ys) s t =
    match y s t with
    | .error e => .error e
    | .ok ((true, s'), u) => inOrder ys s' u
    | .ok ((false, s'), u) => .ok ((false, s'), u) := by
  simp only [inOrder, bind_run]
  rcases y s t with e | ⟨⟨_ | _, s'⟩, u⟩ <;> rfl

theorem firstOf_eq (kind : Kind) : firstOf kind ys s t = firstOfFrom kind s.errors.size ys s t :=
  rfl

/-- A choice gives up at the error limit, and goes on where its first alternative fails. -/
theorem firstOfFrom_cons (kind : Kind) (base : Nat) : firstOfFrom kind base (y :: ys) s t =
    if s.atErrorLimit then .ok ((false, s.note (limitEvent kind)), t)
    else
      match y s t with
      | .error e => .error e
      | .ok ((true, s'), u) => .ok ((true, s'.keepErrors base), u)
      | .ok ((false, s'), u) => firstOfFrom kind base ys s' u := by
  simp only [firstOfFrom, bind_run, getScanner_run]
  split
  · rfl
  · rw [bind_run]
    rcases y s t with e | ⟨⟨_ | _, s'⟩, u⟩ <;> rfl

theorem repeated_eq (min : Nat) (max : Option Nat) :
    repeated min max y s t = repeatedFrom min y (max.getD (attemptBound s)) 0 s t := rfl

/-- A repetition gives up at the error limit, and goes on where its body matches something. -/
theorem repeatedFrom_succ (min attempts matched : Nat) :
    repeatedFrom min y (attempts + 1) matched s t =
      if s.atErrorLimit then .ok ((false, s), t)
      else
        match y s t with
        | .error e => .error e
        | .ok ((true, s'), u) =>
          if s'.cur.stop = s.cur.stop then .ok ((decide (min ≤ matched + 1), s'), u)
          else repeatedFrom min y attempts (matched + 1) s' u
        | .ok ((false, s'), u) =>
          .ok ((decide (min ≤ matched),
            if min ≤ matched then s'.keepErrors s.errors.size else s'), u) := by
  simp only [repeatedFrom, bind_run, getScanner_run]
  split
  · rfl
  · rw [bind_run]
    -- the body failed, or it matched
    rcases y s t with e | ⟨⟨_ | _, s'⟩, u⟩
    · rfl
    · by_cases hm : min ≤ matched
      · simp only [hm, if_true]
        rfl
      · simp only [hm, if_false]
        rfl
    · simp only [if_true, bind_run, getScanner_run]
      split <;> rfl

end Parts

theorem parseEachUnder_eq_map (rs : List Rule) (p : NodeId) :
    parseEachUnder rs p = rs.map fun r => r.parseUnder p := by
  induction rs with
  | nil => rfl
  | cons r rs ih => rw [parseEachUnder, ih, List.map_cons]

end Parsing

/-! ## What composite rules do with their parts -/

/-- How a composite rule recognises its parts. -/
def fill : Rule → ScanM Bool
  | seq _ parts => inOrder (recognizeEach parts)
  | choice kind alternatives => firstOf kind (recognizeEach alternatives)
  | repetition _ body min max => repeated min max body.recognize
  | _ => pure false

/-- How a composite rule puts its parts under a node. -/
def fillUnder : Rule → NodeId → ParseM Bool
  | seq _ parts, p => inOrder (parseEachUnder parts p)
  | choice kind alternatives, p => firstOf kind (parseEachUnder alternatives p)
  | repetition _ body min max, p => repeated min max (body.parseUnder p)
  | _, _ => pure false

section Composite

variable {r : Rule} (h : r.isComposite = true)

include h

theorem recognize_of_composite : r.recognize = recognizeComposite r.kind r.fill := by
  cases r with
  | seq | choice | repetition =>
    rw [recognize]
    rfl
  | notAhead | ahead | literal | charClass | builtin | custom => cases h

theorem parse_of_composite : r.parse = parseComposite r.kind r.fillUnder := by
  cases r with
  | seq | choice | repetition => rfl
  | notAhead | ahead | literal | charClass | builtin | custom => cases h

theorem parseUnder_of_composite : r.parseUnder = parseCompositeUnder r.kind r.fillUnder := by
  cases r with
  | seq | choice | repetition =>
    rw [parseUnder]
    rfl
  | notAhead | ahead | literal | charClass | builtin | custom => cases h

end Composite

end PegKit.Rule
