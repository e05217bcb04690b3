import PegKit.Proofs.Rule.Contract

/-! # Where errors point

Every error that a failing rule leaves points to a place that reading ahead leads to, and a rule
that reports itself has the last word, for the place where it began.

* `Scanner.IsAhead` and `AllAhead`: cursors that reading ahead leads to, and errors at such.
* `Scanner.Diagnoses`: the contract of rules with these errors, and `Scanner.Strays` what is left of
  it for the parts of a composite rule.
* `inOrder_strays`, `firstOfFrom_strays` and `repeatedFrom_strays`: one lemma for each way to run
  parts.
* `recognize_errors_ahead`: the errors of a failure.
-/

namespace PegKit

namespace Scanner

variable {s : Scanner} {out : Bool × Scanner} {cs : List Char} {log : Array Event}
  {new more : Array Expectation} {m : Cursor}

/-! ## Errors ahead -/

/-- Reading some text that comes next leads to the cursor `m`. -/
def IsAhead (s : Scanner) (m : Cursor) : Prop :=
  ∃ cs, Utf8.encode cs <+: s.rest ∧ m = s.cur.across cs

/-- Every one of the errors is at a cursor that reading ahead leads to. -/
def AllAhead (s : Scanner) (new : Array Expectation) : Prop :=
  ∀ e ∈ new, s.IsAhead e.place

/-- A cursor ahead has its span in the buffer, and none of it lies behind where reading began. -/
theorem IsAhead.fits (h : s.InBounds) (hm : s.IsAhead m) :
    m.Fits s.buf.size ∧ s.cur.stop ≤ m.stop := by
  rcases hm with ⟨cs, hcs, rfl⟩
  have hfits : (s.readOver cs s.log).InBounds := h.readOver hcs
  refine ⟨hfits, ?_⟩
  rw [Cursor.stop_across]
  exact Nat.le_add_right _ _

theorem isAhead_cur (s : Scanner) : s.IsAhead s.cur :=
  ⟨[], List.nil_prefix, rfl⟩

/-- What is ahead of a place ahead is ahead. -/
theorem IsAhead.of_readOver (reads : Utf8.encode cs <+: s.rest)
    (h : (s.readOver cs log).IsAhead m) : s.IsAhead m := by
  rcases h with ⟨ds, hds, rfl⟩
  exact ⟨cs ++ ds, prefix_encode_append reads hds, (Cursor.across_append s.cur cs ds).symm⟩

theorem AllAhead.of_readOver (reads : Utf8.encode cs <+: s.rest)
    (h : (s.readOver cs log).AllAhead new) : s.AllAhead new :=
  fun e he => (h e he).of_readOver reads

theorem allAhead_empty (s : Scanner) : s.AllAhead #[] :=
  fun _ he => absurd he (Array.not_mem_empty _)

theorem AllAhead.append (h : s.AllAhead new) (h' : s.AllAhead more) :
    s.AllAhead (new ++ more) := by
  intro e he
  rcases Array.mem_append.mp he with he | he
  · exact h e he
  · exact h' e he

/-- An error for the place where the action began. -/
theorem allAhead_singleton (s : Scanner) (kind : Kind) : s.AllAhead #[⟨kind, s.cur⟩] := by
  intro e he
  rw [Array.mem_singleton.mp he]
  exact s.isAhead_cur

theorem allAhead_ownError (s : Scanner) (kind : Kind) (new : Array Expectation) :
    s.AllAhead (s.ownError kind new) := by
  unfold ownError
  split
  · exact s.allAhead_singleton kind
  · exact s.allAhead_empty

/-! ## Outcomes -/

/-- The contract of rules, where every new error is ahead and, if `own` holds, the last one is for
`kind` where the action began. -/
def Diagnoses (own : Prop) (kind : Kind) (s : Scanner) : Bool × Scanner → Prop :=
  s.Outcome (fun _ => True) fun m new => m = s.cur ∧ new ≠ #[] ∧ s.AllAhead new ∧
    (own → new.back? = some ⟨kind, s.cur⟩)

/-- A match, or a failure anywhere with every new error ahead. -/
def Strays (s : Scanner) : Bool × Scanner → Prop :=
  s.Outcome (fun _ => True) fun _ new => s.AllAhead new

/-- A rule that reads code points itself pushes one error, its own. -/
theorem Reads.diagnoses {f : Matcher} {kind : Kind} (h : s.Reads f kind out) (own : Prop) :
    s.Diagnoses own kind out := by
  refine h.imp (fun _ _ => trivial) ?_
  rintro m new ⟨hm, rfl, _⟩
  exact ⟨hm, by simp, s.allAhead_singleton kind, fun _ => rfl⟩

/-- What follows a text that was read. -/
theorem Strays.after (reads : Utf8.encode cs <+: s.rest) (h : (s.readOver cs log).Strays out) :
    s.Strays out :=
  Outcome.after reads (fun _ _ => trivial) (fun _ _ hF => hF.of_readOver reads) h

/-- An action that reads a text leaves no errors, whatever it answers. -/
theorem Strays.ended (b : Bool) (reads : Utf8.encode cs <+: s.rest) :
    s.Strays (b, s.readOver cs log) := by
  cases b with
  | true => exact .matched reads trivial
  | false =>
    rw [readOver_eq_strayed]
    exact .failed s.allAhead_empty

theorem Strays.unmoved (b : Bool) : s.Strays (b, s) :=
  @Strays.ended s [] s.log b List.nil_prefix

end Scanner

namespace Rule

open Scanner

variable {s : Scanner} {x : ScanM Bool} {xs : List (ScanM Bool)} {own : Prop} {kind k : Kind}

/-- An action that, wherever it fails, goes back and leaves errors that are all ahead. -/
def PointsAhead (x : ScanM Bool) : Prop :=
  ∀ s : Scanner, s.InBounds →
    s.Outcome (fun _ => True) (fun m new => m = s.cur ∧ s.AllAhead new) (x s)

theorem pointsAhead_of_diagnoses (h : ∀ s : Scanner, s.InBounds → s.Diagnoses own kind (x s)) :
    PointsAhead x :=
  fun s hs => (h s hs).imp (fun _ => id) fun _ _ hF => ⟨hF.1, hF.2.2.1⟩

/-! ## Ways to run parts -/

/-- What the first failure of a sequence reports is ahead of what was read before it. -/
theorem inOrder_strays (hxs : ∀ x ∈ xs, PointsAhead x) (h : s.InBounds) :
    s.Strays ((inOrder xs : ScanM Bool) s) := by
  induction xs generalizing s with
  | nil => exact .unmoved true
  | cons x xs ih =>
    have hx := hxs x List.mem_cons_self s h
    rw [inOrder_cons]
    generalize x s = out at hx ⊢
    cases hx with
    | matched reads =>
      exact .after reads
        (ih (fun y hy => hxs y (List.mem_cons_of_mem x hy)) (h.readOver reads))
    | failed means => exact .failed means.2

/-- The alternatives of a choice are tried where it began, so what all of them report is ahead. -/
theorem firstOfFrom_strays (hxs : ∀ x ∈ xs, PointsAhead x) (kind : Kind) (h : s.InBounds)
    (new : Array Expectation) (log : Array Event) (hnew : s.AllAhead new) :
    s.Strays ((firstOfFrom kind s.errors.size xs : ScanM Bool) (s.report new log)) := by
  -- on the alternatives, with the errors of those that failed before on the stack
  induction xs generalizing new log with
  | nil => exact .failed hnew
  | cons x xs ih =>
    rw [firstOfFrom_cons]
    by_cases hlim : (s.report new log).atErrorLimit = true
    · rw [if_pos hlim]
      exact .failed hnew
    rw [if_neg hlim]
    have hx := hxs x List.mem_cons_self (s.report new log) h
    generalize x (s.report new log) = out at hx ⊢
    cases hx with
    | @matched cs log' reads =>
      show s.Strays (true, ((s.strayed s.cur new log).readOver cs log').keepErrors _)
      rw [readOver_eq_strayed, strayed_strayed, keepErrors_strayed]
      exact readOver_eq_strayed (s := s) ▸ .matched reads trivial
    | @failed m new' log' means =>
      rcases means with ⟨rfl, hnew'⟩
      show s.Strays (firstOfFrom kind s.errors.size xs
        ((s.strayed s.cur new log).strayed s.cur new' log'))
      rw [strayed_strayed]
      exact ih (fun y hy => hxs y (List.mem_cons_of_mem x hy)) (new ++ new') log'
        (hnew.append hnew')

/-- What the last attempt of a repetition reports is ahead of the matches before it. -/
theorem repeatedFrom_strays (hx : PointsAhead x) (min attempts matched : Nat) (h : s.InBounds) :
    s.Strays ((repeatedFrom min x attempts matched : ScanM Bool) s) := by
  -- on the attempts that are left
  induction attempts generalizing s matched with
  | zero => exact .unmoved _
  | succ attempts ih =>
    have hr := hx s h
    rw [repeatedFrom_succ]
    by_cases hlim : s.atErrorLimit = true
    · rw [if_pos hlim]
      exact .unmoved false
    rw [if_neg hlim]
    generalize x s = out at hr ⊢
    cases hr with
    | @matched cs log reads =>
      show s.Strays (if (s.readOver cs log).cur.stop = s.cur.stop then _ else _)
      by_cases hstop : (s.readOver cs log).cur.stop = s.cur.stop
      · rw [if_pos hstop]
        exact .ended _ reads
      · rw [if_neg hstop]
        exact .after reads (ih (matched + 1) (h.readOver reads))
    | @failed m new log means =>
      rcases means with ⟨rfl, hnew⟩
      show s.Strays (decide (min ≤ matched), if min ≤ matched then Scanner.keepErrors _ _ else _)
      by_cases hm : min ≤ matched
      · rw [if_pos hm, keepErrors_report]
        exact .ended _ List.nil_prefix
      · rw [if_neg hm, decide_eq_false hm]
        exact .failed hnew

/-! ## Composite rules and lookahead -/

/-- A typed composite rule has the last word after its parts. -/
theorem recognizeComposite_diagnoses (h : s.InBounds) (kind : Kind) {fill : ScanM Bool}
    (hf : s.Strays (fill s)) :
    s.Diagnoses (kind ≠ untyped) kind (recognizeComposite kind fill s) := by
  unfold recognizeComposite
  generalize fill s = out at hf ⊢
  cases hf with
  | matched reads => exact .matched reads trivial
  | @failed m new log hnew =>
    simp only [failComposite_strayed h]
    refine .reported ⟨rfl, s.append_ownError_ne kind new,
      hnew.append (s.allAhead_ownError kind new), ?_⟩
    intro hk
    rw [ownError, if_pos (Or.inl hk)]
    exact Array.back?_push

/-- A negative lookahead forgets what its body reports and always reports itself. -/
theorem recognizeNotAhead_diagnoses (hx : PointsAhead x) (kind : Kind) (own : Prop)
    (h : s.InBounds) : s.Diagnoses own kind (recognizeNotAhead kind x s) := by
  have hr := hx s h
  unfold recognizeNotAhead
  generalize x s = out at hr ⊢
  cases hr with
  | @matched cs log reads =>
    show s.Diagnoses _ _ (false, (s.readOver cs log).failAt s.cur kind)
    rw [readOver_eq_strayed, failAt_strayed h, Array.empty_append]
    exact .reported ⟨rfl, by simp, s.allAhead_singleton kind, fun _ => rfl⟩
  | @failed m new log means =>
    rcases means with ⟨rfl, _⟩
    show s.Diagnoses _ _ (true, (s.strayed s.cur new log).keepErrors s.errors.size)
    rw [keepErrors_report]
    exact .matched List.nil_prefix trivial

theorem recognizeAhead_diagnoses (hx : PointsAhead x) (kind : Kind) (h : s.InBounds) :
    s.Diagnoses (kind ≠ untyped) kind (recognizeAhead kind x s) := by
  have hr := hx s h
  unfold recognizeAhead
  generalize x s = out at hr ⊢
  cases hr with
  | @matched cs log reads =>
    show s.Diagnoses _ _ (true, (s.readOver cs log).moveTo s.cur)
    rw [moveTo_readOver h]
    exact .matched List.nil_prefix trivial
  | @failed m new log means =>
    simp only [failComposite_strayed h]
    refine .reported ⟨rfl, s.append_ownError_ne kind new,
      means.2.append (s.allAhead_ownError kind new), ?_⟩
    intro hk
    rw [ownError, if_pos (Or.inl hk)]
    exact Array.back?_push

/-! ## All rules -/

/-- Whether a rule that fails always reports itself: it is typed, or it pushes errors of no other
rule. -/
def ReportsItself : Rule → Prop
  | notAhead _ _ => True
  | literal _ _ => True
  | charClass _ _ _ => True
  | r => r.kind ≠ untyped

/-- A rule without custom rules leaves errors that are all ahead, and its own comes last if it
reports itself. -/
theorem diagnoses_of_plain {r : Rule} (hr : r.IsPlain) (h : s.InBounds) :
    s.Diagnoses r.ReportsItself r.kind (r.recognize s) := by
  refine plain_induction
    (P := fun r => ∀ s : Scanner, s.InBounds → s.Diagnoses r.ReportsItself r.kind (r.recognize s))
    ?seq ?choice ?repetition ?notAhead ?ahead ?literal ?charClass ?builtin hr s h
  case seq =>
    intro kind parts ih s h
    rw [recognize, recognizeEach_eq_map]
    refine recognizeComposite_diagnoses h kind (inOrder_strays ?_ h)
    intro x hx
    rcases List.mem_map.mp hx with ⟨r, hr, rfl⟩
    exact pointsAhead_of_diagnoses (ih r hr)
  case choice =>
    intro kind alternatives ih s h
    have halts : ∀ x ∈ alternatives.map recognize, PointsAhead x := by
      intro x hx
      rcases List.mem_map.mp hx with ⟨r, hr, rfl⟩
      exact pointsAhead_of_diagnoses (ih r hr)
    have hc := firstOfFrom_strays halts kind h #[] s.log s.allAhead_empty
    rw [report_empty] at hc
    rw [recognize, recognizeEach_eq_map]
    exact recognizeComposite_diagnoses h kind hc
  case repetition =>
    intro kind body min max ih s h
    rw [recognize]
    exact recognizeComposite_diagnoses h kind
      (repeatedFrom_strays (pointsAhead_of_diagnoses ih) min _ 0 h)
  case notAhead =>
    intro kind body ih s h
    exact recognizeNotAhead_diagnoses (pointsAhead_of_diagnoses ih) kind _ h
  case ahead =>
    intro kind body ih s h
    exact recognizeAhead_diagnoses (pointsAhead_of_diagnoses ih) kind h
  case literal =>
    intro kind text s h
    exact (readLiteral_reads h kind text).diagnoses _
  case charClass =>
    intro kind name accepts s h
    exact (readOne_reads h kind accepts).diagnoses _
  case builtin =>
    intro b s h
    exact (Builtin.recognize_reads h b).diagnoses _

/-- A rule that fails leaves at least one error. Each of its errors has its span in the buffer and
ends no earlier than where the rule began, and the last one is for the rule and that place if the
rule reports itself. -/
theorem recognize_errors_ahead {r : Rule} (hr : r.IsPlain) (h : s.InBounds)
    (hf : (r.recognize s).1 = false) :
    ∃ new, (r.recognize s).2.errors = s.errors ++ new ∧ new ≠ #[] ∧
      (∀ e ∈ new, e.place.start ≤ e.place.stop ∧ e.place.stop ≤ s.buf.size ∧
        s.cur.stop ≤ e.place.stop) ∧
      (r.ReportsItself → new.back? = some ⟨r.kind, s.cur⟩) := by
  have hd := diagnoses_of_plain hr h
  generalize r.recognize s = out at hd hf ⊢
  cases hd with
  | matched => cases hf
  | @failed m new log means =>
    refine ⟨new, rfl, means.2.1, ?_, means.2.2.2⟩
    intro e he
    have hfits := (means.2.2.1 e he).fits h
    exact ⟨hfits.1.1, hfits.1.2, hfits.2⟩

/-- A sequence that fails in an alternative of its second part, with an error from before. The two
alternatives fail at different places, and the sequence has the last word. -/
theorem recognize_errors_ahead_nested :
    let r := seq 1 [literal 2 "a", choice 0 [literal 3 "b", seq 0 [literal 4 "c", literal 5 "d"]]]
    let s : Scanner :=
      { buf := #[0x61, 0x63, 0x78], errors := #[⟨-1, .origin⟩],
        options := { maxErrors := some 4 } }
    r.IsPlain ∧ s.InBounds ∧ (r.recognize s).1 = false ∧
      (r.recognize s).2.errors = s.errors ++ #[⟨3, ⟨'a', 0, 1⟩⟩, ⟨5, ⟨'c', 1, 2⟩⟩, ⟨1, s.cur⟩] ∧
      ∃ new, (r.recognize s).2.errors = s.errors ++ new ∧ new.back? = some ⟨1, s.cur⟩ ∧
        ∀ e ∈ new, e.place.stop ≤ 3 := by
  intro r s
  have hr : r.IsPlain := ⟨trivial, ⟨trivial, ⟨trivial, trivial, trivial⟩, trivial⟩, trivial⟩
  have h : s.InBounds := ⟨by decide, by decide⟩
  have hf : (r.recognize s).1 = false := by decide +kernel
  have hown : r.ReportsItself := show (1 : Kind) ≠ untyped by decide
  rcases recognize_errors_ahead hr h hf with ⟨new, hnew, _, hfits, hlast⟩
  exact ⟨hr, h, hf, by decide +kernel, new, hnew, hlast hown, fun e he => (hfits e he).2.1⟩

end Rule

end PegKit
