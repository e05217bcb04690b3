import PegKit.Rule.Recognize

/-! # Building nodes

Parsing recognises what `Rule.recognize` recognises and puts nodes into a tree on the way.

* `Rule.parse` makes a root for what a rule matched.
* `Rule.parseUnder` puts what a rule matched under a parent. An untyped rule makes no node of its
  own: what its parts make goes straight under the parent, and an untyped token only consumes.
* A typed composite whose parts made no node becomes a leaf with the text consumed.
* Whatever a failed attempt made is rolled back.
-/

namespace PegKit.Rule

/-! ## Steps of parsing -/

/-- Recognises while parsing. -/
def liftScan (x : ScanM Bool) : ParseM Bool :=
  modifyGetThe Scanner x

/-- Makes a root. -/
def makeRoot (kind : Kind) (value : String) : ParseM NodeId :=
  modifyGetThe Tree (·.makeRoot kind value)

/-- Forgets the nodes made since a checkpoint. -/
def rollbackTo (c : Nat) : ParseM Unit :=
  modifyThe Tree (·.rollback c)

/-- Makes a leaf of what a recognition consumes. -/
def parseToken (kind : Kind) (x : ScanM Bool) : ParseM (Option NodeId) := do
  let m := (← getThe Scanner).cur
  if ← liftScan x then
    return some (← makeRoot kind ((← getThe Scanner).consumedSince m))
  else return none

/-- Makes an empty leaf where a recognition matches. -/
def parseLookahead (kind : Kind) (x : ScanM Bool) : ParseM (Option NodeId) := do
  if ← liftScan x then return some (← makeRoot kind "") else return none

/-- Parses and attaches the result under `parent`. When the parse fails, or the tree refuses the
node, what was made is rolled back; a refusal counts as a failure of the rule of kind `kind`. -/
def attachResult (kind : Kind) (parse : ParseM (Option NodeId)) (parent : NodeId) :
    ParseM Bool := do
  let m := (← getThe Scanner).cur
  let c := (← getThe Tree).checkpoint
  match ← parse with
  | none =>
    rollbackTo c
    return false
  | some id =>
    match (← getThe Tree).attach parent id with
    | .ok t =>
      set t
      return true
    | .error (.unknownNode id) => throw (.unknownNode id)
    | .error _ =>
      rollbackTo c
      modifyThe Scanner (·.failAt m kind)
      return false

/-! ## Composite rules -/

/-- Makes a node for a composite rule whose parts `fill` puts under a given node. -/
def parseComposite (kind : Kind) (fill : NodeId → ParseM Bool) : ParseM (Option NodeId) := do
  let m := (← getThe Scanner).cur
  let base := (← getThe Scanner).errors.size
  let c := (← getThe Tree).checkpoint
  let id ← makeRoot kind ""
  if ← fill id then
    if (← (← getThe Tree).lookup id).count = 0 then
      -- no part made a node: the text consumed takes their place
      rollbackTo c
      return some (← makeRoot kind ((← getThe Scanner).consumedSince m))
    else return some id
  else
    rollbackTo c
    modifyThe Scanner (·.failComposite m kind base)
    return none

/-- Puts a composite rule under `parent`: as one node when it is typed, else part by part. -/
def parseCompositeUnder (kind : Kind) (fill : NodeId → ParseM Bool) (parent : NodeId) :
    ParseM Bool := do
  if kind ≠ untyped then attachResult kind (parseComposite kind fill) parent
  else
    let m := (← getThe Scanner).cur
    let base := (← getThe Scanner).errors.size
    let c := (← getThe Tree).checkpoint
    if ← fill parent then return true
    else
      rollbackTo c
      modifyThe Scanner (·.failComposite m untyped base)
      return false

/-! ## All rules -/

/-- Puts a token under `parent`: as a leaf when it is typed, else not at all. -/
def parseTokenUnder (kind : Kind) (x : ScanM Bool) (parent : NodeId) : ParseM Bool :=
  if kind = untyped then liftScan x else attachResult kind (parseToken kind x) parent

/-- Puts a custom rule under `parent`. One that has a parse function is asked for a node even when
it is untyped. -/
def parseCustomUnder (c : CustomRule) (parent : NodeId) : ParseM Bool :=
  match c.parse with
  | some parse => attachResult c.kind parse parent
  | none => parseTokenUnder c.kind c.recognize parent

mutual

/-- Parses a rule and attaches what it makes as the last children of `parent`. Lookahead makes
nothing here. -/
def parseUnder : Rule → NodeId → ParseM Bool
  | seq kind parts =>
    parseCompositeUnder kind fun id => inOrder (parseEachUnder parts id)
  | choice kind alternatives =>
    parseCompositeUnder kind fun id => firstOf kind (parseEachUnder alternatives id)
  | repetition kind body min max =>
    parseCompositeUnder kind fun id => repeated min max (body.parseUnder id)
  | notAhead kind body => fun _ => liftScan (recognize (notAhead kind body))
  | ahead kind body => fun _ => liftScan (recognize (ahead kind body))
  | literal kind text => parseTokenUnder kind (recognize (literal kind text))
  | charClass kind name accepts => parseTokenUnder kind (recognize (charClass kind name accepts))
  | builtin b => parseTokenUnder b.kind (recognize (builtin b))
  | custom c => parseCustomUnder c

/-- The actions that parse each of some rules under a node. -/
def parseEachUnder : List Rule → NodeId → List (ParseM Bool)
  | [], _ => []
  | r :: rs, id => r.parseUnder id :: parseEachUnder rs id

end

/-- Parses a rule and makes a root for what it matched. -/
def parse : Rule → ParseM (Option NodeId)
  | seq kind parts => parseComposite kind fun id => inOrder (parseEachUnder parts id)
  | choice kind alternatives =>
    parseComposite kind fun id => firstOf kind (parseEachUnder alternatives id)
  | repetition kind body min max =>
    parseComposite kind fun id => repeated min max (body.parseUnder id)
  | notAhead kind body => parseLookahead kind (recognize (notAhead kind body))
  | ahead kind body => parseLookahead kind (recognize (ahead kind body))
  | literal kind text => parseToken kind (recognize (literal kind text))
  | charClass kind name accepts => parseToken kind (recognize (charClass kind name accepts))
  | builtin b => parseToken b.kind (recognize (builtin b))
  | custom c => c.parse.getD (parseToken c.kind c.recognize)

end PegKit.Rule
