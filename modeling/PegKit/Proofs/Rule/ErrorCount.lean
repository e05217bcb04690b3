import PegKit.Proofs.Rule.Contract

/-! # How many errors a failure leaves

Two bounds on the errors that are on the stack after a rule. One goes by the number of rules in it
and holds at any error limit; the other goes by the limit and by how deep the rules nest, however
many alternatives there are.

* `Scanner.SettlesWithin`: the contract of rules with a bound on the errors, and `Scanner.Leaves`
  what is left of it for the parts of a composite rule.
* `inOrder_leaves`, `firstOfFrom_leaves` and `repeatedFrom_leaves`: one lemma for each way to run
  parts. Only in a choice do failures pile up, so it takes an invariant, `IsCountInvariant`.
* `oncePerNode_of_plain` and `recognize_errors_le`: the two bounds.
-/

namespace PegKit

namespace Scanner

/-- A match, or a failure that leaves at most `bound` errors on the stack. -/
def Leaves (bound : Nat) (s : Scanner) : Bool × Scanner → Prop :=
  s.Outcome (fun _ => True) fun _ new => s.errors.size + new.size ≤ bound

/-- A match, or a failure that goes back to where the action began and leaves at most `bound` errors
on the stack. -/
def SettlesWithin (bound : Nat) (s : Scanner) : Bool × Scanner → Prop :=
  s.Outcome (fun _ => True) fun m new => m = s.cur ∧ s.errors.size + new.size ≤ bound

variable {s : Scanner} {out : Bool × Scanner} {bound bound' : Nat}

theorem SettlesWithin.mono (hb : bound ≤ bound') (h : s.SettlesWithin bound out) :
    s.SettlesWithin bound' out :=
  Outcome.imp (fun _ => id) (fun _ _ hF => ⟨hF.1, Nat.le_trans hF.2 hb⟩) h

/-- After a match the stack is as it was. -/
theorem SettlesWithin.size_errors_le (hb : s.errors.size ≤ bound) (h : s.SettlesWithin bound out) :
    out.2.errors.size ≤ bound := by
  cases h with
  | matched => exact hb
  | failed means =>
    rw [size_errors_strayed]
    exact means.2

/-- An action that reads a text leaves no errors, whatever it answers. -/
theorem Leaves.ended {cs : List Char} {log : Array Event} (hb : s.errors.size ≤ bound) (b : Bool)
    (reads : Utf8.encode cs <+: s.rest) : s.Leaves bound (b, s.readOver cs log) := by
  cases b with
  | true => exact .matched reads trivial
  | false =>
    rw [readOver_eq_strayed]
    exact .failed hb

theorem Leaves.unmoved (hb : s.errors.size ≤ bound) (b : Bool) : s.Leaves bound (b, s) :=
  @Leaves.ended s bound [] s.log hb b List.nil_prefix

/-- A rule that reads code points itself pushes one error at most. -/
theorem Reads.settlesWithin {f : Matcher} {kind : Kind} (h : s.Reads f kind out) :
    s.SettlesWithin (s.errors.size + 1) out := by
  refine h.imp (fun _ _ => trivial) ?_
  rintro m new ⟨hm, rfl, _⟩
  exact ⟨hm, Nat.le_refl _⟩

theorem size_ownError_le (s : Scanner) (kind : Kind) (new : Array Expectation) :
    (s.ownError kind new).size ≤ 1 := by
  unfold ownError
  split
  · exact Nat.le_refl 1
  · exact Nat.zero_le 1

end Scanner

namespace Rule

open Scanner

/-- With the error limit `limit`, an action that begins with `e` errors on the stack settles within
`bound e`. -/
def KeepsWithin (limit : Option Nat) (bound : Nat → Nat) (x : ScanM Bool) : Prop :=
  ∀ s : Scanner, s.InBounds → s.options.maxErrors = limit →
    s.SettlesWithin (bound s.errors.size) (x s)

variable {l : Option Nat} {b b' : Nat → Nat} {s : Scanner} {x : ScanM Bool}
  {xs : List (ScanM Bool)} {rs : List Rule}

theorem KeepsWithin.mono (hb : ∀ e, b e ≤ b' e) (h : KeepsWithin l b x) : KeepsWithin l b' x :=
  fun s hs hl => (h s hs hl).mono (hb s.errors.size)

theorem keepsWithin_of_reads {f : Matcher} {kind : Kind}
    (h : ∀ s : Scanner, s.InBounds → s.Reads f kind (x s)) : KeepsWithin l (· + 1) x :=
  fun s hs _ => (h s hs).settlesWithin

/-! ## Composite rules -/

/-- A composite rule adds one error at most to those of its parts. -/
theorem recognizeComposite_settlesWithin {bound : Nat} (h : s.InBounds) (kind : Kind)
    {fill : ScanM Bool} (hf : s.Leaves bound (fill s)) :
    s.SettlesWithin (bound + 1) (recognizeComposite kind fill s) := by
  unfold recognizeComposite
  generalize fill s = out at hf ⊢
  cases hf with
  | matched reads => exact .matched reads trivial
  | @failed m new log means =>
    have hown := s.size_ownError_le kind new
    simp only [failComposite_strayed h]
    refine .reported ⟨rfl, ?_⟩
    rw [Array.size_append]
    omega

/-- The parts of a sequence that match leave no errors, so those of the first failure are all. -/
theorem inOrder_leaves (hxs : ∀ x ∈ xs, KeepsWithin l b x) (hb : s.errors.size ≤ b s.errors.size)
    (h : s.InBounds) (hl : s.options.maxErrors = l) :
    s.Leaves (b s.errors.size) ((inOrder xs : ScanM Bool) s) := by
  induction xs generalizing s with
  | nil => exact .unmoved hb true
  | cons x xs ih =>
    have hx := hxs x List.mem_cons_self s h hl
    rw [inOrder_cons]
    generalize x s = out at hx ⊢
    cases hx with
    | matched reads =>
      exact Outcome.after reads (fun _ _ => trivial) (fun _ _ => id)
        (ih (fun y hy => hxs y (List.mem_cons_of_mem x hy)) hb (h.readOver reads) hl)
    | failed means => exact .failed means.2

/-- A property of the alternatives that are left and the number of errors, which keeps that number
within `bound` and which every alternative of `rs` keeps, where it is tried below the limit. -/
structure IsCountInvariant (limit : Option Nat) (bound : Nat) (I : List Rule → Nat → Prop)
    (rs : List Rule) : Prop where
  le_bound : ∀ rest e, I rest e → e ≤ bound
  step : ∀ r ∈ rs, ∀ rest (t : Scanner), t.InBounds → t.options.maxErrors = limit →
    t.atErrorLimit = false → I (r :: rest) t.errors.size →
      ∃ most, t.SettlesWithin most (r.recognize t) ∧ ∀ e ≤ most, I rest e

theorem IsCountInvariant.tail {bound : Nat} {I : List Rule → Nat → Prop} {r : Rule}
    (hI : IsCountInvariant l bound I (r :: rs)) : IsCountInvariant l bound I rs where
  le_bound := hI.le_bound
  step r' hr' := hI.step r' (List.mem_cons_of_mem r hr')

/-- The alternatives of a choice are tried where it began, each with the errors of those before it
on the stack. -/
theorem firstOfFrom_leaves {bound : Nat} {I : List Rule → Nat → Prop}
    (hI : IsCountInvariant l bound I rs) (kind : Kind) (h : s.InBounds)
    (hl : s.options.maxErrors = l) (new : Array Expectation) (log : Array Event)
    (hrs : I rs (s.errors.size + new.size)) :
    s.Leaves bound
      ((firstOfFrom kind s.errors.size (rs.map recognize) : ScanM Bool) (s.report new log)) := by
  -- on the alternatives, with the errors of those that failed before
  induction rs generalizing new log with
  | nil => exact .failed (hI.le_bound _ _ hrs)
  | cons r rs ih =>
    rw [List.map_cons, firstOfFrom_cons]
    by_cases hlim : (s.report new log).atErrorLimit = true
    · rw [if_pos hlim]
      exact .failed (hI.le_bound _ _ hrs)
    rw [if_neg hlim]
    rw [← @size_errors_strayed s log s.cur new] at hrs
    rcases hI.step r List.mem_cons_self rs (s.report new log) h hl
      (Bool.eq_false_iff.mpr hlim) hrs with ⟨most, hr, hnext⟩
    generalize r.recognize (s.report new log) = out at hr ⊢
    cases hr with
    | @matched cs log' reads =>
      show s.Leaves bound (true, ((s.strayed s.cur new log).readOver cs log').keepErrors _)
      rw [readOver_eq_strayed, strayed_strayed, keepErrors_strayed]
      exact readOver_eq_strayed (s := s) ▸ .matched reads trivial
    | @failed m new' log' means =>
      rcases means with ⟨rfl, hle⟩
      show s.Leaves bound (firstOfFrom kind s.errors.size (rs.map recognize)
        ((s.strayed s.cur new log).strayed s.cur new' log'))
      rw [strayed_strayed]
      refine ih hI.tail (new ++ new') log' (hnext _ ?_)
      rw [report, size_errors_strayed] at hle
      rwa [Array.size_append, ← Nat.add_assoc]

/-- A choice begins with the errors from before it. -/
theorem recognize_choice_settlesWithin {bound : Nat} {I : List Rule → Nat → Prop}
    (hI : IsCountInvariant l bound I rs) (kind : Kind) (h : s.InBounds)
    (hl : s.options.maxErrors = l) (hrs : I rs s.errors.size) :
    s.SettlesWithin (bound + 1) ((choice kind rs).recognize s) := by
  have hc := firstOfFrom_leaves hI kind h hl #[] s.log hrs
  rw [recognize, recognizeEach_eq_map]
  apply recognizeComposite_settlesWithin h kind
  rw [firstOf_eq]
  rwa [report_empty] at hc

/-- A repetition tries its body at the error count that it began with. -/
theorem repeatedFrom_leaves (hx : KeepsWithin l b x) (hb : s.errors.size ≤ b s.errors.size)
    (min attempts matched : Nat) (h : s.InBounds) (hl : s.options.maxErrors = l) :
    s.Leaves (b s.errors.size) ((repeatedFrom min x attempts matched : ScanM Bool) s) := by
  -- on the attempts that are left: those that matched left no errors
  induction attempts generalizing s matched with
  | zero => exact .unmoved hb _
  | succ attempts ih =>
    have hr := hx s h hl
    rw [repeatedFrom_succ]
    by_cases hlim : s.atErrorLimit = true
    · rw [if_pos hlim]
      exact .unmoved hb false
    rw [if_neg hlim]
    generalize x s = out at hr ⊢
    cases hr with
    | @matched cs log reads =>
      have hb' : (s.readOver cs log).errors.size ≤ b (s.readOver cs log).errors.size := hb
      show s.Leaves _ (if (s.readOver cs log).cur.stop = s.cur.stop then _ else _)
      by_cases hstop : (s.readOver cs log).cur.stop = s.cur.stop
      · rw [if_pos hstop]
        exact .ended hb _ reads
      · rw [if_neg hstop]
        exact Outcome.after reads (fun _ _ => trivial) (fun _ _ => id)
          (ih hb' (matched + 1) (h.readOver reads) hl)
    | @failed m new log means =>
      rcases means with ⟨rfl, hle⟩
      show s.Leaves _
        (decide (min ≤ matched), if min ≤ matched then Scanner.keepErrors _ _ else _)
      by_cases hm : min ≤ matched
      · rw [if_pos hm, keepErrors_report]
        exact .ended hb _ List.nil_prefix
      · rw [if_neg hm, decide_eq_false hm]
        exact .failed hle

/-! ## Lookahead -/

/-- A negative lookahead forgets the errors of its body, so only its own can be left. -/
theorem recognizeNotAhead_keepsWithin (hx : KeepsWithin l b x) (kind : Kind) :
    KeepsWithin l (· + 1) (recognizeNotAhead kind x) := by
  intro s h hl
  have hr := hx s h hl
  unfold recognizeNotAhead
  generalize x s = out at hr ⊢
  cases hr with
  | @matched cs log reads =>
    show s.SettlesWithin _ (false, (s.readOver cs log).failAt s.cur kind)
    rw [readOver_eq_strayed, failAt_strayed h]
    exact .reported ⟨rfl, Nat.le_refl _⟩
  | @failed m new log means =>
    rcases means with ⟨rfl, _⟩
    show s.SettlesWithin _ (true, (s.strayed s.cur new log).keepErrors s.errors.size)
    rw [keepErrors_report]
    exact .matched List.nil_prefix trivial

theorem recognizeAhead_keepsWithin (hx : KeepsWithin l b x) (kind : Kind) :
    KeepsWithin l (fun e => b e + 1) (recognizeAhead kind x) := by
  intro s h hl
  have hr := hx s h hl
  unfold recognizeAhead
  generalize x s = out at hr ⊢
  cases hr with
  | @matched cs log reads =>
    show s.SettlesWithin _ (true, (s.readOver cs log).moveTo s.cur)
    rw [moveTo_readOver h]
    exact .matched List.nil_prefix trivial
  | @failed m new log means =>
    have hown := s.size_ownError_le kind new
    have hle := means.2
    simp only [failComposite_strayed h]
    refine .reported ⟨rfl, ?_⟩
    rw [Array.size_append]
    omega

/-! ## By the number of rules -/

/-- The number of rules in a rule, itself included. -/
def nodeCount (r : Rule) : Nat := r.subrules.length

/-- The number of rules in some rules. -/
def nodeCountEach (rs : List Rule) : Nat := (subrulesEach rs).length

@[simp] theorem nodeCountEach_cons (r : Rule) (rs : List Rule) :
    nodeCountEach (r :: rs) = r.nodeCount + nodeCountEach rs :=
  List.length_append

theorem nodeCountEach_singleton (r : Rule) : nodeCountEach [r] = r.nodeCount :=
  nodeCountEach_cons r []

/-- A rule counts one, and what its parts count. -/
theorem nodeCount_eq (r : Rule) : r.nodeCount = nodeCountEach r.parts + 1 := by
  cases r with
  | seq => rfl
  | choice => rfl
  | repetition kind body => exact congrArg (· + 1) (nodeCountEach_singleton body).symm
  | notAhead kind body => exact congrArg (· + 1) (nodeCountEach_singleton body).symm
  | ahead kind body => exact congrArg (· + 1) (nodeCountEach_singleton body).symm
  | literal => rfl
  | charClass => rfl
  | builtin => rfl
  | custom => rfl

theorem nodeCount_pos (r : Rule) : 0 < r.nodeCount := by
  rw [nodeCount_eq]
  exact Nat.succ_pos _

theorem nodeCount_le_nodeCountEach {r : Rule} (h : r ∈ rs) : r.nodeCount ≤ nodeCountEach rs := by
  induction rs with
  | nil => cases h
  | cons head tail ih =>
    rw [nodeCountEach_cons]
    rcases List.mem_cons.mp h with rfl | h
    · exact Nat.le_add_right _ _
    · exact Nat.le_add_left_of_le (ih h)

/-- With the error limit `limit`, a rule pushes one error at most for each rule in it. -/
def OncePerNode (limit : Option Nat) (r : Rule) : Prop :=
  KeepsWithin limit (· + r.nodeCount) r.recognize

theorem oncePerNode_of_reads {r : Rule} {f : Matcher} {kind : Kind}
    (h : ∀ s : Scanner, s.InBounds → s.Reads f kind (r.recognize s)) : r.OncePerNode l :=
  (keepsWithin_of_reads h).mono fun e => Nat.add_le_add_left r.nodeCount_pos e

theorem oncePerNode_seq (kind : Kind) (parts : List Rule)
    (ih : ∀ r ∈ parts, r.OncePerNode l) : (seq kind parts).OncePerNode l := by
  intro s h hl
  have hparts : ∀ x ∈ parts.map recognize, KeepsWithin l (· + nodeCountEach parts) x := by
    intro x hx
    rcases List.mem_map.mp hx with ⟨r, hr, rfl⟩
    exact (ih r hr).mono fun e => Nat.add_le_add_left (nodeCount_le_nodeCountEach hr) e
  rw [nodeCount_eq, recognize, recognizeEach_eq_map]
  exact recognizeComposite_settlesWithin h kind
    (inOrder_leaves hparts (Nat.le_add_right _ _) h hl)

/-- The errors so far, and one for each rule in the alternatives that are left. -/
theorem isCountInvariant_nodeCountEach (hrs : ∀ r ∈ rs, r.OncePerNode l) (bound : Nat) :
    IsCountInvariant l bound (fun rest e => e + nodeCountEach rest ≤ bound) rs where
  le_bound _ e := Nat.le_trans (Nat.le_add_right e _)
  step r hr rest t ht htl _ hsum := by
    refine ⟨_, hrs r hr t ht htl, ?_⟩
    intro e he
    rw [nodeCountEach_cons] at hsum
    dsimp only at he
    omega

theorem oncePerNode_choice (kind : Kind) (alternatives : List Rule)
    (ih : ∀ r ∈ alternatives, r.OncePerNode l) : (choice kind alternatives).OncePerNode l := by
  intro s h hl
  rw [nodeCount_eq]
  have hI := isCountInvariant_nodeCountEach ih (s.errors.size + nodeCountEach alternatives)
  exact recognize_choice_settlesWithin hI kind h hl (Nat.le_refl _)

theorem oncePerNode_repetition (kind : Kind) (body : Rule) (min : Nat) (max : Option Nat)
    (ih : body.OncePerNode l) : (repetition kind body min max).OncePerNode l := by
  intro s h hl
  rw [recognize]
  apply recognizeComposite_settlesWithin h kind
  rw [repeated_eq]
  exact repeatedFrom_leaves ih (Nat.le_add_right _ _) min _ 0 h hl

theorem oncePerNode_notAhead (kind : Kind) (body : Rule) (ih : body.OncePerNode l) :
    (notAhead kind body).OncePerNode l := by
  apply (recognizeNotAhead_keepsWithin ih kind).mono
  intro e
  exact Nat.add_le_add_left (notAhead kind body).nodeCount_pos e

theorem oncePerNode_ahead (kind : Kind) (body : Rule) (ih : body.OncePerNode l) :
    (ahead kind body).OncePerNode l :=
  recognizeAhead_keepsWithin ih kind

/-- A rule without custom rules that fails pushes one error at most for each rule in it, whatever
the error limit. -/
theorem oncePerNode_of_plain {r : Rule} (hr : r.IsPlain) (l : Option Nat) : r.OncePerNode l := by
  refine plain_induction_reads oncePerNode_seq oncePerNode_choice oncePerNode_repetition
    oncePerNode_notAhead oncePerNode_ahead ?_ hr
  intro r kind h
  exact oncePerNode_of_reads h

/-! ## By the error limit -/

mutual

/-- How deep sequences, choices, repetitions and positive lookaheads nest in a rule. -/
def depth : Rule → Nat
  | seq _ parts => depthEach parts + 1
  | choice _ alternatives => depthEach alternatives + 1
  | repetition _ body _ _ => body.depth + 1
  | notAhead _ body => body.depth
  | ahead _ body => body.depth + 1
  | literal _ _ => 0
  | charClass _ _ _ => 0
  | builtin _ => 0
  | custom _ => 0

/-- How deep they nest in any of some rules. -/
def depthEach : List Rule → Nat
  | [] => 0
  | r :: rs => max r.depth (depthEach rs)

end

theorem depth_le_depthEach {r : Rule} (h : r ∈ rs) : r.depth ≤ depthEach rs := by
  induction rs with
  | nil => cases h
  | cons head tail ih =>
    rw [depthEach]
    rcases List.mem_cons.mp h with rfl | h
    · exact Nat.le_max_left _ _
    · exact Nat.le_trans (ih h) (Nat.le_max_right _ _)

/-- With an error limit of `n`, a rule goes beyond what the limit and one error more allow by one
error at most for each level of nesting. -/
def OncePerLevel (n : Nat) (r : Rule) : Prop :=
  KeepsWithin (some n) (fun e => max n (e + 1) + r.depth) r.recognize

variable {n : Nat}

theorem oncePerLevel_of_reads {r : Rule} {f : Matcher} {kind : Kind}
    (h : ∀ s : Scanner, s.InBounds → s.Reads f kind (r.recognize s)) : r.OncePerLevel n :=
  (keepsWithin_of_reads h).mono fun _ => Nat.le_add_right_of_le (Nat.le_max_right _ _)

theorem oncePerLevel_seq (kind : Kind) (parts : List Rule)
    (ih : ∀ r ∈ parts, r.OncePerLevel n) : (seq kind parts).OncePerLevel n := by
  intro s h hl
  have hparts : ∀ x ∈ parts.map recognize,
      KeepsWithin (some n) (fun e => max n (e + 1) + depthEach parts) x := by
    intro x hx
    rcases List.mem_map.mp hx with ⟨r, hr, rfl⟩
    exact (ih r hr).mono fun e => Nat.add_le_add_left (depth_le_depthEach hr) _
  rw [depth, recognize, recognizeEach_eq_map]
  exact recognizeComposite_settlesWithin h kind (inOrder_leaves hparts (by omega) h hl)

/-- Alternatives are tried below the limit only, so it bounds what one leaves whatever failed
before. -/
theorem isCountInvariant_depthEach (hrs : ∀ r ∈ rs, r.OncePerLevel n) {bound : Nat}
    (hbound : n + depthEach rs ≤ bound) :
    IsCountInvariant (some n) bound (fun _ e => e ≤ bound) rs where
  le_bound _ _ := id
  step r hr rest t ht htl hlim _ := by
    have hbelow : t.errors.size < n := by
      rw [atErrorLimit, htl] at hlim
      exact Nat.lt_of_not_le (of_decide_eq_false hlim)
    have hdepth := depth_le_depthEach hr
    refine ⟨_, hrs r hr t ht htl, ?_⟩
    intro e he
    dsimp only at he
    omega

theorem oncePerLevel_choice (kind : Kind) (alternatives : List Rule)
    (ih : ∀ r ∈ alternatives, r.OncePerLevel n) : (choice kind alternatives).OncePerLevel n := by
  intro s h hl
  have hbound : n + depthEach alternatives ≤
      max n (s.errors.size + 1) + depthEach alternatives :=
    Nat.add_le_add_right (Nat.le_max_left _ _) _
  rw [depth]
  exact recognize_choice_settlesWithin (isCountInvariant_depthEach ih hbound) kind h hl (by omega)

theorem oncePerLevel_repetition (kind : Kind) (body : Rule) (min : Nat) (max : Option Nat)
    (ih : body.OncePerLevel n) : (repetition kind body min max).OncePerLevel n := by
  intro s h hl
  rw [depth, recognize]
  apply recognizeComposite_settlesWithin h kind
  rw [repeated_eq]
  exact repeatedFrom_leaves ih (by omega) min _ 0 h hl

theorem oncePerLevel_notAhead (kind : Kind) (body : Rule) (ih : body.OncePerLevel n) :
    (notAhead kind body).OncePerLevel n :=
  (recognizeNotAhead_keepsWithin ih kind).mono fun _ =>
    Nat.le_add_right_of_le (Nat.le_max_right _ _)

theorem oncePerLevel_ahead (kind : Kind) (body : Rule) (ih : body.OncePerLevel n) :
    (ahead kind body).OncePerLevel n := by
  have ha := recognizeAhead_keepsWithin ih kind
  rwa [OncePerLevel, depth]

theorem oncePerLevel_of_plain {r : Rule} (hr : r.IsPlain) (n : Nat) : r.OncePerLevel n := by
  refine plain_induction_reads oncePerLevel_seq oncePerLevel_choice oncePerLevel_repetition
    oncePerLevel_notAhead oncePerLevel_ahead ?_ hr
  intro r kind h
  exact oncePerLevel_of_reads h

/-- With an error limit, the errors on the stack after a rule are bounded by the limit, or the
errors before and one, and by how deep the rules nest. -/
theorem recognize_errors_le {r : Rule} {d : Nat} (hr : r.IsPlain) (h : s.InBounds)
    (hl : s.options.maxErrors = some n) (hd : r.depth ≤ d) :
    (r.recognize s).2.errors.size ≤ max n (s.errors.size + 1) + d := by
  have hs := oncePerLevel_of_plain hr n s h hl
  exact (hs.mono (Nat.add_le_add_left hd _)).size_errors_le (by omega)

/-- Three typed choices inside each other: two literals fail, the limit stops the innermost choice,
and each choice adds an error of its own. The bound is met. -/
theorem recognize_errors_le_met :
    let r := choice 1 [choice 2 [choice 3 [literal 4 "a", literal 5 "b", literal 6 "c"]],
      builtin .any]
    let s : Scanner := { buf := #[0x78], options := { maxErrors := some 2 } }
    r.IsPlain ∧ s.InBounds ∧ s.options.maxErrors = some 2 ∧ r.depth ≤ 3 ∧
      (r.recognize s).2.errors.size = max 2 (s.errors.size + 1) + 3 := by
  intro r s
  have hr : r.IsPlain := ⟨⟨⟨trivial, trivial, trivial, trivial⟩, trivial⟩, trivial, trivial⟩
  have h : s.InBounds := ⟨Nat.le_refl 0, Nat.zero_le 1⟩
  have hd : r.depth ≤ 3 := by decide +kernel
  have hmany : 5 ≤ (r.recognize s).2.errors.size := by decide +kernel
  exact ⟨hr, h, rfl, hd, Nat.le_antisymm (recognize_errors_le hr h rfl hd) hmany⟩

end Rule

end PegKit
