import PegKit.Proofs.Rule.Breakage
import PegKit.Proofs.Rule.Tokens
import PegKit.Proofs.Tree.Walking
import PegKit.Rule.Parse

/-! # Rules without bounds on their loops

Recognising and parsing are total because every loop has a bound. Here are the same rules with loops
that go on until a condition of their own stops them; an action that does not end has no result.
What does not loop is as in the bounded actions.

* `Unbounded.readTo`, `skipBlanks` and `readVisible` are the loops of tokens; they end wherever the
  cursor is in the buffer.
* `Unbounded.repeatedFrom` is the loop of a repetition. It counts how often it tries its body.
* `Unbounded.iterate` is a loop of actions; `result` is what an action comes to, if it ends.
* `Unbounded.perform` and `Unbounded.parse` run a rule with all of its loops so.
-/

noncomputable section

namespace PegKit

namespace Unbounded

/-! ## Literals -/

open Scanner

variable {s : Scanner}

/-- Reads code points until the cursor has reached `offset`. -/
def readTo (offset : Nat) (s : Scanner) : Option (Bool × Scanner) :=
  loop (fun s =>
    if s.cur.stop < offset then
      match s.advance with
      | (true, s) => some (.inr s)
      | (false, s) => some (.inl (false, s))
    else some (.inl (true, s))) s

/-- Reads `text`, or fails with an error for `kind`. -/
def readLiteral (kind : Kind) (text : String) (s : Scanner) : Option (Bool × Scanner) := do
  let lit := Utf8.bytes text
  let m := s.cur
  if s.peek lit then
    match ← readTo (m.stop + lit.length) s with
    | (true, s) => return (true, s)
    | (false, s) => return (false, s.failAt m kind)
  else return (false, s.expect kind)

theorem stop_lt_of_advance {t : Scanner} (h : s.advance = (true, t)) : s.cur.stop < t.cur.stop := by
  rcases exists_readOver_of_advance h with ⟨c, log, _, rfl⟩
  rw [cur_readOver, Cursor.stop_across, Utf8.encode_singleton]
  exact Nat.lt_add_of_pos_right (Utf8.length_utf8EncodeChar_pos c)

/-- Every code point that is read brings the offset nearer. -/
theorem readTo_eq {offset fuel : Nat} (hf : offset ≤ s.cur.stop + fuel) :
    readTo offset s = some (s.readTo offset fuel) := by
  induction fuel generalizing s with
  | zero => exact loop_of_done (if_neg (by omega))
  | succ fuel ih =>
    rw [Scanner.readTo]
    split
    · next hlt =>
      rcases ha : s.advance with ⟨_ | _, s'⟩
      · exact loop_of_done (by rw [if_pos hlt, ha])
      · have hstop := stop_lt_of_advance ha
        exact (loop_of_next (by rw [if_pos hlt, ha])).trans (ih (by omega))
    · next hge => exact loop_of_done (if_neg hge)

theorem readLiteral_eq (kind : Kind) (text : String) :
    readLiteral kind text s = some (s.readLiteral kind text) := by
  simp only [readLiteral, Scanner.readLiteral]
  split
  · rw [readTo_eq (Nat.le_refl _)]
    rcases s.readTo _ _ with ⟨_ | _, s'⟩ <;> rfl
  · rfl

/-! ## Builtin rules -/

/-- Passes over spaces and tabs, one byte each. -/
def skipBlanks (s : Scanner) : Option Scanner :=
  loop (fun s => if Builtin.blankAhead s then some (.inr s.advance.2) else some (.inl s)) s

/-- Every blank that is passed over leaves fewer bytes ahead. -/
theorem skipBlanks_eq (h : s.InBounds) {fuel : Nat} (hf : s.remaining ≤ fuel) :
    skipBlanks s = some (Builtin.skipBlanks fuel s) := by
  induction fuel generalizing s with
  | zero =>
    rcases Builtin.blankAhead_cases h with ⟨c, log, hc, _⟩ | ⟨hb, _⟩
    · have hlt : (s.readOver [c] log).remaining < s.remaining := remaining_readOver_lt hc
      omega
    · exact loop_of_done (if_neg (by simp [hb]))
  | succ fuel ih =>
    rw [Builtin.skipBlanks]
    rcases Builtin.blankAhead_cases h with ⟨c, log, hc, hb, ha, _⟩ | ⟨hb, _⟩
    · have hlt : (s.readOver [c] log).remaining < s.remaining := remaining_readOver_lt hc
      rw [if_pos hb, ha, ← ih (h.readOver hc) (by omega)]
      exact loop_of_next (by rw [if_pos hb, ha])
    · rw [hb]
      exact loop_of_done (if_neg (by simp [hb]))

/-- Reads the end of a paragraph. -/
def readEndPara (s : Scanner) : Option (Bool × Scanner) := do
  let m := s.cur
  let base := s.errors.size
  let s ← skipBlanks s
  let (found, s) := if s.atEnd then (true, s) else Builtin.readBlankLine s
  let s := s.keepErrors base
  return if found then (true, s) else (false, s.failAt m Builtin.endPara.kind)

theorem readEndPara_eq (h : s.InBounds) : readEndPara s = some (Builtin.readEndPara s) := by
  rw [readEndPara, skipBlanks_eq h (Nat.le_refl _)]
  rfl

/-- Reads printable code points up to a space; whether there was any, or had been before. -/
def readVisible (found : Bool) (s : Scanner) : Option (Bool × Scanner) :=
  loop (fun (found, s) =>
    if s.peek [0x20] then some (.inl (found, s))
    else
      match Builtin.readPrintable s with
      | (true, s) => some (.inr (true, s))
      | (false, s) => some (.inl (found, s))) (found, s)

/-- Every code point that is read leaves fewer bytes ahead. -/
theorem readVisible_eq (h : s.InBounds) {fuel : Nat} (hf : s.remaining < fuel) (found : Bool) :
    readVisible found s = some (Builtin.readVisible fuel found s) := by
  induction fuel generalizing s found with
  | zero => exact absurd hf (Nat.not_lt_zero _)
  | succ fuel ih =>
    rw [Builtin.readVisible]
    split
    · next hspace => exact loop_of_done (if_pos hspace)
    next hspace =>
    rcases readOne_cases h Builtin.printable.kind CharClass.uprint.accepts with
      ⟨c, log, hc, _, hr⟩ | ⟨_, log, hr⟩
    · rw [← Utf8.encode_singleton] at hc
      have hlt : (s.readOver [c] log).remaining < s.remaining := remaining_readOver_lt hc
      rw [Builtin.readPrintable, hr]
      refine (loop_of_next ?_).trans (ih (h.readOver hc) (by omega) true)
      simp only [if_neg hspace, Builtin.readPrintable, hr]
    · rw [Builtin.readPrintable, hr]
      exact loop_of_done (by simp only [if_neg hspace, Builtin.readPrintable, hr])

/-- Reads a field. -/
def readField (s : Scanner) : Option (Bool × Scanner) := do
  let m := s.cur
  let base := s.errors.size
  let (found, s) ← readVisible false s
  let s := s.keepErrors base
  return if found then (true, s) else (false, s.failAt m Builtin.field.kind)

theorem readField_eq (h : s.InBounds) : readField s = some (Builtin.readField s) := by
  rw [readField, readVisible_eq h (Nat.lt_succ_self _) false]
  rfl

/-- Recognises a builtin rule at the cursor. Only two of them loop. -/
def readBuiltin : Builtin → Scanner → Option (Bool × Scanner)
  | .endPara, s => readEndPara s
  | .field, s => readField s
  | b, s => some (b.recognize s)

theorem readBuiltin_eq (h : s.InBounds) (b : Builtin) : readBuiltin b s = some (b.recognize s) := by
  cases b with
  | endPara => exact readEndPara_eq h
  | field => exact readField_eq h
  | endOfData | whiteSpace | endLine | printable | digit | any => rfl

end Unbounded

/-! ## Actions -/

/-- An action that may go on forever. It has a result exactly if it ends. -/
abbrev LoopM := StateT Scanner (StateT Tree (ExceptT TreeError Option))

/-- Where a rule sends what it makes. -/
inductive Sink where
  /-- The rule is only recognised. -/
  | nowhere
  /-- Under a node of the tree. -/
  | under (parent : NodeId)

namespace Unbounded

/-- What an action comes to: nothing where it does not end. -/
def result {α : Type} (x : LoopM α) (s : Scanner) (t : Tree) :
    Option (Except TreeError ((α × Scanner) × Tree)) :=
  x s t

section Results

variable {α β : Type} {s s' : Scanner} {t u : Tree} {x : LoopM α} {f : α → LoopM β} {a : α}

theorem result_bind (h : result x s t = some (.ok ((a, s'), u))) :
    result (x >>= f) s t = result (f a) s' u := by
  simp only [result, bind, StateT.bind, ExceptT.bind, ExceptT.mk] at h ⊢
  rw [h]
  rfl

@[simp] theorem result_getScanner {f : Scanner → LoopM β} :
    result (getThe Scanner >>= f) s t = result (f s) s t :=
  result_bind rfl

@[simp] theorem result_getTree {f : Tree → LoopM β} :
    result (getThe Tree >>= f) s t = result (f t) s t :=
  result_bind rfl

@[simp] theorem result_modifyScanner {g : Scanner → Scanner} {f : PUnit → LoopM β} :
    result (modifyThe Scanner g >>= f) s t = result (f ()) (g s) t :=
  result_bind rfl

@[simp] theorem result_setScanner {f : PUnit → LoopM β} :
    result (set s' >>= f) s t = result (f ()) s' t :=
  result_bind rfl

@[simp] theorem result_setTree {f : PUnit → LoopM β} :
    result (set u >>= f) s t = result (f ()) s u :=
  result_bind rfl

theorem result_lift {o : Option α} (h : o = some a) :
    result ((liftM o : LoopM α) >>= f) s t = result (f a) s t := by
  rw [h]
  rfl

@[simp] theorem result_liftOk {a : α} :
    result (liftM (Except.ok a : Except TreeError α) >>= f) s t = result (f a) s t :=
  result_bind rfl

/-- The loop of actions that return something or go on from a new state. A fault ends it. -/
def iterate {σ ρ : Type} (round : σ → LoopM (ρ ⊕ σ)) (a : σ) : LoopM ρ := fun s t =>
  loop (fun ((a, s), t) =>
    match result (round a) s t with
    | some (.ok ((.inl b, s), t)) => some (.inl (.ok ((b, s), t)))
    | some (.ok ((.inr a, s), t)) => some (.inr ((a, s), t))
    | some (.error e) => some (.inl (.error e))
    | none => none) ((a, s), t)

variable {σ ρ : Type} {round : σ → LoopM (ρ ⊕ σ)} {c c' : σ} {b : ρ}

theorem result_iterate_of_done (h : result (round c) s t = some (.ok ((.inl b, s'), u))) :
    result (iterate round c) s t = some (.ok ((b, s'), u)) :=
  loop_of_done (by simp only [h])

theorem result_iterate_of_next (h : result (round c) s t = some (.ok ((.inr c', s'), u))) :
    result (iterate round c) s t = result (iterate round c') s' u :=
  loop_of_next (by simp only [h])

end Results

/-! ## Steps of rules -/

/-- Recognises while parsing. -/
def liftScan (x : Scanner → Option (Bool × Scanner)) : LoopM Bool := do
  let (b, s) ← x (← getThe Scanner)
  set s
  return b

/-- Makes a root. -/
def makeRoot (kind : Kind) (value : String) : LoopM NodeId :=
  modifyGetThe Tree (·.makeRoot kind value)

@[simp] theorem result_makeRoot {β : Type} {s : Scanner} {t : Tree} {kind : Kind} {value : String}
    {f : NodeId → LoopM β} :
    result (makeRoot kind value >>= f) s t = result (f t.size) s (t.makeRoot kind value).2 :=
  result_bind rfl

/-- Forgets the nodes made since a checkpoint. -/
def rollbackTo (c : Nat) : LoopM Unit := do
  set (← rollback (← getThe Tree) c)

/-- Makes a leaf of what a recognition consumes. -/
def parseToken (kind : Kind) (x : LoopM Bool) : LoopM (Option NodeId) := do
  let m := (← getThe Scanner).cur
  if ← x then return some (← makeRoot kind ((← getThe Scanner).consumedSince m))
  else return none

/-- Makes an empty leaf where a recognition matches. -/
def parseLookahead (kind : Kind) (x : LoopM Bool) : LoopM (Option NodeId) := do
  if ← x then return some (← makeRoot kind "") else return none

/-- Parses and attaches the result under `parent`, or takes back what was made. -/
def attachResult (kind : Kind) (parse : LoopM (Option NodeId)) (parent : NodeId) :
    LoopM Bool := do
  let m := (← getThe Scanner).cur
  let c := (← getThe Tree).checkpoint
  match ← parse with
  | none =>
    rollbackTo c
    return false
  | some id =>
    match ← (attach (← getThe Tree) parent id).run with
    | .ok t =>
      set t
      return true
    | .error (.unknownNode id) => throw (.unknownNode id)
    | .error _ =>
      rollbackTo c
      modifyThe Scanner (·.failAt m kind)
      return false

/-- Puts a token where it is sent. -/
def token (kind : Kind) (x : LoopM Bool) : Sink → LoopM Bool
  | .nowhere => x
  | .under p => if kind = untyped then x else attachResult kind (parseToken kind x) p

/-- Matches nothing where the body fails. -/
def notAhead (kind : Kind) (body : LoopM Bool) : LoopM Bool := do
  let m := (← getThe Scanner).cur
  let base := (← getThe Scanner).errors.size
  if ← body then
    modifyThe Scanner (·.failAt m kind)
    return false
  else
    modifyThe Scanner (·.keepErrors base)
    return true

/-- Matches nothing where the body matches. -/
def ahead (kind : Kind) (body : LoopM Bool) : LoopM Bool := do
  let m := (← getThe Scanner).cur
  let base := (← getThe Scanner).errors.size
  if ← body then
    modifyThe Scanner (·.moveTo m)
    return true
  else
    modifyThe Scanner (·.failComposite m kind base)
    return false

/-! ## Repetition -/

/-- What follows an attempt that began at the offset `stop`, with `base` errors: the end of the
repetition, or how often its body has matched and was tried. -/
def afterAttempt (min stop base matched tried : Nat) : Bool → LoopM ((Bool × Nat) ⊕ (Nat × Nat))
  | true => do
    if (← getThe Scanner).cur.stop = stop then
      return .inl (decide (min ≤ matched + 1), tried + 1)
    else return .inr (matched + 1, tried + 1)
  | false => do
    if min ≤ matched then modifyThe Scanner (·.keepErrors base)
    return .inl (decide (min ≤ matched), tried + 1)

/-- An attempt at the body, unless the repetition is over before. -/
def attempt (min : Nat) (max : Option Nat) (body : LoopM Bool) (matched tried : Nat) :
    LoopM ((Bool × Nat) ⊕ (Nat × Nat)) := do
  if max.all (matched < ·) then
    let limited := (← getThe Scanner).atErrorLimit
    let stop := (← getThe Scanner).cur.stop
    let base := (← getThe Scanner).errors.size
    if limited then return .inl (false, tried)
    else afterAttempt min stop base matched tried (← body)
  else return .inl (decide (min ≤ matched), tried)

/-- Runs the body as often as it matches, at most `max` times; whether that was at least `min`
times, and how often the body was tried. So far it matched `matched` times and was tried `tried`
times. -/
def repeatedFrom (min : Nat) (max : Option Nat) (body : LoopM Bool) (matched tried : Nat) :
    LoopM (Bool × Nat) :=
  iterate (fun (matched, tried) => attempt min max body matched tried) (matched, tried)

/-- A whole run of a repetition. -/
def repeated (min : Nat) (max : Option Nat) (body : LoopM Bool) : LoopM Bool := do
  return (← repeatedFrom min max body 0 0).1

/-! ## Composite rules -/

/-- Runs the parts of a composite rule, or fails as one. -/
def composeScan (kind : Kind) (fill : LoopM Bool) : LoopM Bool := do
  let m := (← getThe Scanner).cur
  let base := (← getThe Scanner).errors.size
  if ← fill then return true
  else
    modifyThe Scanner (·.failComposite m kind base)
    return false

/-- Makes a node for a composite rule whose parts `fill` puts under a given node. -/
def composeParse (kind : Kind) (fill : NodeId → LoopM Bool) : LoopM (Option NodeId) := do
  let m := (← getThe Scanner).cur
  let base := (← getThe Scanner).errors.size
  let c := (← getThe Tree).checkpoint
  let id ← makeRoot kind ""
  if ← fill id then
    if (← (← getThe Tree).lookup id).count = 0 then
      rollbackTo c
      return some (← makeRoot kind ((← getThe Scanner).consumedSince m))
    else return some id
  else
    rollbackTo c
    modifyThe Scanner (·.failComposite m kind base)
    return none

/-- Puts a composite rule under `parent`: as one node when it is typed, else part by part. -/
def composeUnder (kind : Kind) (fill : NodeId → LoopM Bool) (parent : NodeId) : LoopM Bool := do
  if kind ≠ untyped then attachResult kind (composeParse kind fill) parent
  else
    let m := (← getThe Scanner).cur
    let base := (← getThe Scanner).errors.size
    let c := (← getThe Tree).checkpoint
    if ← fill parent then return true
    else
      rollbackTo c
      modifyThe Scanner (·.failComposite m untyped base)
      return false

/-- Sends what the parts of a composite rule make where it is sent itself. -/
def compose (kind : Kind) (fill : Sink → LoopM Bool) : Sink → LoopM Bool
  | .nowhere => composeScan kind (fill .nowhere)
  | .under p => composeUnder kind (fun id => fill (.under id)) p

/-! ## All rules -/

/-- A custom rule is what its functions are. -/
def custom (c : CustomRule) : Sink → LoopM Bool
  | .nowhere => fun s t => some (Rule.liftScan c.recognize s t)
  | .under p => fun s t => some (Rule.parseCustomUnder c p s t)

mutual

/-- Recognises a rule, or parses it and attaches what it makes. -/
def perform : Rule → Sink → LoopM Bool
  | .seq kind parts => compose kind fun sink => Rule.inOrder (performEach parts sink)
  | .choice kind alternatives =>
    compose kind fun sink => Rule.firstOf kind (performEach alternatives sink)
  | .repetition kind body min max =>
    compose kind fun sink => repeated min max (perform body sink)
  | .notAhead kind body => fun _ => notAhead kind (perform body .nowhere)
  | .ahead kind body => fun _ => ahead kind (perform body .nowhere)
  | .literal kind text => token kind (liftScan (readLiteral kind text))
  | .charClass kind _ accepts => token kind (liftScan fun s => some (s.readOne kind accepts))
  | .builtin b => token b.kind (liftScan (readBuiltin b))
  | .custom c => custom c

/-- The actions for each of some rules. -/
def performEach : List Rule → Sink → List (LoopM Bool)
  | [], _ => []
  | r :: rs, sink => perform r sink :: performEach rs sink

end

/-- Parses a rule and makes a root for what it matched. -/
def parse : Rule → LoopM (Option NodeId)
  | .seq kind parts =>
    composeParse kind fun id => Rule.inOrder (performEach parts (.under id))
  | .choice kind alternatives =>
    composeParse kind fun id => Rule.firstOf kind (performEach alternatives (.under id))
  | .repetition kind body min max =>
    composeParse kind fun id => repeated min max (perform body (.under id))
  | .notAhead kind body => parseLookahead kind (perform (.notAhead kind body) .nowhere)
  | .ahead kind body => parseLookahead kind (perform (.ahead kind body) .nowhere)
  | .literal kind text => parseToken kind (perform (.literal kind text) .nowhere)
  | .charClass kind name accepts =>
    parseToken kind (perform (.charClass kind name accepts) .nowhere)
  | .builtin b => parseToken b.kind (perform (.builtin b) .nowhere)
  | .custom c => fun s t => some (c.parse.getD (Rule.parseToken c.kind c.recognize) s t)

/-! ## What composite rules do with their parts -/

theorem performEach_eq_map (rs : List Rule) (sink : Sink) :
    performEach rs sink = rs.map (perform · sink) := by
  induction rs with
  | nil => rfl
  | cons r rs ih => rw [performEach, ih, List.map_cons]

/-- How a composite rule runs its parts. -/
def fill : Rule → Sink → LoopM Bool
  | .seq _ parts, sink => Rule.inOrder (performEach parts sink)
  | .choice kind alternatives, sink => Rule.firstOf kind (performEach alternatives sink)
  | .repetition _ body min max, sink => repeated min max (perform body sink)
  | _, _ => pure false

section Composite

variable {r : Rule} (h : r.isComposite = true)

include h

theorem perform_of_composite : perform r = compose r.kind (fill r) := by
  cases r with
  | seq | choice | repetition =>
    rw [perform]
    rfl
  | notAhead | ahead | literal | charClass | builtin | custom => cases h

theorem parse_of_composite : parse r = composeParse r.kind fun id => fill r (.under id) := by
  cases r with
  | seq | choice | repetition => rfl
  | notAhead | ahead | literal | charClass | builtin | custom => cases h

end Composite

end Unbounded

end PegKit

end
