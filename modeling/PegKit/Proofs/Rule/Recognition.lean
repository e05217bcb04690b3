import PegKit.Proofs.Rule.Breakage
import PegKit.Proofs.Rule.Scanning
import PegKit.Proofs.Rule.Tokens

/-! # What rules recognise

One induction over rules says both how a rule leaves the scanner and what it matches.

* `Scanner.Honors` is the contract of rules together with a meaning that is promised under a
  condition, and `Scanner.Heeds` what the parts of a composite rule make of it together.
* `inOrder_heeds`, `firstOfFrom_heeds` and `repeatedFrom_heeds`: one lemma for each way to run
  parts.
* `reliable_of_plain`: every rule without custom rules honors the contract at any error limit, and
  its meaning where it is steady.
-/

namespace PegKit

namespace Scanner

/-! ## Promises -/

/-- With `new` more errors on the stack there are as many as the options allow. -/
def LimitedBy (s : Scanner) (new : Array Expectation) : Prop :=
  s.options.maxErrors.any (· ≤ s.errors.size + new.size) = true

/-- The error limit is not reached, unless it is zero, where it always is. -/
def HasRoom (s : Scanner) : Prop :=
  s.options.maxErrors = some 0 ∨ s.atErrorLimit = false

/-- If `p` holds, a match where `f` matches, over the same bytes, and else a failure, or one that
the error limit explains in case of `breakable`. -/
def Heeds (p breakable : Prop) (f : Matcher) (s : Scanner) : Bool × Scanner → Prop :=
  s.Outcome (fun cs => p → f s.rest = some (Utf8.encode cs).length)
    fun _ new => p → f s.rest = none ∨ breakable ∧ s.LimitedBy new

/-- The contract of rules, and a meaning that is promised if `p` holds. -/
def Honors (p breakable : Prop) (f : Matcher) (s : Scanner) : Bool × Scanner → Prop :=
  s.Outcome (fun cs => p → f s.rest = some (Utf8.encode cs).length)
    fun m new => (m = s.cur ∧ new ≠ #[]) ∧ (p → f s.rest = none ∨ breakable ∧ s.LimitedBy new)

variable {s : Scanner} {out : Bool × Scanner} {p p' B B' : Prop} {f : Matcher}

theorem LimitedBy.append {new : Array Expectation} (h : s.LimitedBy new)
    (more : Array Expectation) : s.LimitedBy (new ++ more) := by
  rw [LimitedBy, Option.any_eq_true] at h ⊢
  rcases h with ⟨n, hn, hle⟩
  refine ⟨n, hn, decide_eq_true ?_⟩
  have hle := of_decide_eq_true hle
  rw [Array.size_append]
  omega

theorem atErrorLimit_report {new : Array Expectation} {log : Array Event} :
    (s.report new log).atErrorLimit = true ↔ s.LimitedBy new := by
  rw [atErrorLimit, report, size_errors_strayed]
  exact Iff.rfl

theorem Honors.imp (hp : p' → p) (hB : B → B') (h : s.Honors p B f out) :
    s.Honors p' B' f out :=
  Outcome.imp (fun _ hM hp' => hM (hp hp'))
    (fun _ _ hF => ⟨hF.1, fun hp' => (hF.2 (hp hp')).imp_right (And.imp_left hB)⟩) h

theorem Honors.settles (h : s.Honors p B f out) : s.Settles out :=
  Outcome.imp (fun _ _ => trivial) (fun _ _ hF => hF.1) h

theorem Follows.honors (h : s.Follows f out) : s.Honors p B f out :=
  Outcome.imp (fun _ hM _ => hM) (fun _ _ hF => ⟨⟨hF.1, hF.2.1⟩, fun _ => Or.inl hF.2.2⟩) h

/-- What follows a text that was read, where the meaning is the text and the meaning of the rest. -/
theorem Heeds.after {g : Matcher} {cs : List Char} {log : Array Event}
    (reads : Utf8.encode cs <+: s.rest)
    (hf : p → f s.rest = (g (s.readOver cs log).rest).map ((Utf8.encode cs).length + ·))
    (h : (s.readOver cs log).Heeds p B g out) : s.Heeds p B f out := by
  refine Outcome.after reads ?_ ?_ h
  · intro ds hM hp
    rw [hf hp, hM hp, Utf8.encode_append, List.length_append]
    rfl
  · intro m new hF hp
    rcases hF hp with hno | hlim
    · rw [hf hp, hno]
      exact Or.inl rfl
    · exact Or.inr hlim

end Scanner

namespace Rule

open Scanner

/-- With the error limit `limit`, a rule honors the contract wherever it is tried, and its meaning
if `steady` holds and the limit is not reached yet. -/
def Reliable (limit : Option Nat) (steady breakable : Prop) (r : Rule) : Prop :=
  ∀ s : Scanner, s.InBounds → s.options.maxErrors = limit →
    s.Honors (steady ∧ s.HasRoom) breakable r.meaning (r.recognize s)

variable {l : Option Nat} {q B : Prop} {s : Scanner}

theorem Reliable.imp {q' B' : Prop} {r : Rule} (hq : q' → q) (hB : B → B')
    (h : r.Reliable l q B) : r.Reliable l q' B' :=
  fun s hb hl => (h s hb hl).imp (And.imp_left hq) hB

/-! ## Composite rules -/

theorem recognizeComposite_honors (h : s.InBounds) {p : Prop} {f : Matcher} (kind : Kind)
    {fill : ScanM Bool} (hf : s.Heeds p B f (fill s)) :
    s.Honors p B f (recognizeComposite kind fill s) := by
  unfold recognizeComposite
  generalize fill s = out at hf ⊢
  cases hf with
  | matched reads means => exact .matched reads means
  | @failed m new log means =>
    simp only [failComposite_strayed h]
    refine .reported ⟨⟨rfl, s.append_ownError_ne kind new⟩, ?_⟩
    intro hp
    exact (means hp).imp_right (And.imp_right fun hlim => hlim.append _)

/-! ## Sequence -/

theorem inOrder_heeds {rs : List Rule} (hrs : ∀ r ∈ rs, r.Reliable l q B) (h : s.InBounds)
    (hl : s.options.maxErrors = l) :
    s.Heeds (q ∧ s.HasRoom) B (Matcher.inOrder (rs.map meaning))
      ((inOrder (rs.map recognize) : ScanM Bool) s) := by
  induction rs generalizing s with
  | nil => exact .stayed fun _ => rfl
  | cons r rs ih =>
    -- the rest of the sequence starts at the scanner that the first part leaves
    have hr := hrs r List.mem_cons_self s h hl
    rw [List.map_cons, List.map_cons, inOrder_cons]
    generalize r.recognize s = out at hr ⊢
    cases hr with
    | @matched cs log reads means =>
      refine Heeds.after reads (fun hp => ?_)
        (ih (fun r' hr' => hrs r' (List.mem_cons_of_mem r hr')) (h.readOver reads) hl)
      rw [Matcher.inOrder_cons_of_some (means hp), ← rest_readOver]
    | failed means =>
      refine .failed ?_
      intro hp
      exact (means.2 hp).imp_left Matcher.inOrder_cons_of_none

/-! ## Ordered choice -/

/-- At the error limit a choice gives up, if only because no alternative is left. -/
theorem firstOfFrom_heeds_of_limited {p : Prop} {f : Matcher} (hB : B) (kind : Kind) (base : Nat)
    (xs : List (ScanM Bool)) {new : Array Expectation} (log : Array Event)
    (hn : s.LimitedBy new) :
    s.Heeds p B f ((firstOfFrom kind base xs : ScanM Bool) (s.report new log)) := by
  cases xs with
  | nil => exact .failed fun _ => Or.inr ⟨hB, hn⟩
  | cons x xs =>
    rw [firstOfFrom_cons, if_pos (atErrorLimit_report.mpr hn)]
    exact .failed fun _ => Or.inr ⟨hB, hn⟩

/-- The alternatives of a choice are tried where it began, each with the errors of those before it
on the stack. -/
theorem firstOfFrom_heeds {rs : List Rule} (hrs : ∀ r ∈ rs, r.Reliable l q B)
    (hB : l ≠ none → B) (kind : Kind) (h : s.InBounds) (hl : s.options.maxErrors = l)
    (new : Array Expectation) (log : Array Event) :
    s.Heeds (q ∧ s.HasRoom) B (Matcher.firstOf (rs.map meaning))
      ((firstOfFrom kind s.errors.size (rs.map recognize) : ScanM Bool) (s.report new log)) := by
  have hBn : ∀ {new : Array Expectation}, s.LimitedBy new → B := by
    intro new hn
    apply hB
    intro hnone
    rw [LimitedBy, hl, hnone] at hn
    cases hn
  -- on the alternatives, with the errors of those that failed before on the stack
  induction rs generalizing new log with
  | nil => exact .failed fun _ => Or.inl rfl
  | cons r rs ih =>
    by_cases hn : s.LimitedBy new
    · exact firstOfFrom_heeds_of_limited (hBn hn) kind _ _ log hn
    -- below the limit, so the alternative is tried and keeps its promise
    have hroom : (s.report new log).HasRoom :=
      Or.inr (Bool.eq_false_iff.mpr fun hk => hn (atErrorLimit_report.mp hk))
    have hr := hrs r List.mem_cons_self (s.report new log) h hl
    rw [List.map_cons, List.map_cons, firstOfFrom_cons,
      if_neg fun hk => hn (atErrorLimit_report.mp hk)]
    generalize r.recognize (s.report new log) = out at hr ⊢
    cases hr with
    | @matched cs log' reads means =>
      show s.Heeds _ B _ (true, ((s.strayed s.cur new log).readOver cs log').keepErrors _)
      rw [readOver_eq_strayed, strayed_strayed, keepErrors_strayed]
      refine readOver_eq_strayed (s := s) ▸ .matched reads ?_
      intro hp
      exact Matcher.firstOf_cons_of_some (means ⟨hp.1, hroom⟩)
    | @failed m new' log' means =>
      rcases means with ⟨⟨rfl, _⟩, hno⟩
      show s.Heeds _ B _ (firstOfFrom kind s.errors.size (rs.map recognize)
        ((s.strayed s.cur new log).strayed s.cur new' log'))
      rw [strayed_strayed]
      by_cases hn' : s.LimitedBy (new ++ new')
      · exact firstOfFrom_heeds_of_limited (hBn hn') kind _ _ log' hn'
      · -- the alternative failed by itself, so the others decide
        have hcons : q ∧ s.HasRoom → Matcher.firstOf ((r :: rs).map meaning) s.rest =
            Matcher.firstOf (rs.map meaning) s.rest := by
          intro hp
          rcases hno ⟨hp.1, hroom⟩ with hnone | ⟨_, hlim⟩
          · exact Matcher.firstOf_cons_of_none hnone
          · rw [LimitedBy, report, size_errors_strayed, Nat.add_assoc, ← Array.size_append] at hlim
            exact absurd hlim hn'
        refine Outcome.imp (fun cs hM hp => ?_) (fun m more hF hp => ?_)
          (ih (fun r' hr' => hrs r' (List.mem_cons_of_mem r hr')) (new ++ new') log')
        · rw [← hM hp]
          exact hcons hp
        · exact (hF hp).imp_left (hcons hp).trans

/-! ## Repetition -/

/-- The attempts that a repetition has left are as many as its bound has, or more than there are
bytes ahead. -/
def Budget (max : Option Nat) (attempts : Nat) (s : Scanner) : Prop :=
  max = some attempts ∨ max = none ∧ s.rest.length < attempts

theorem Budget.zero {max : Option Nat} (h : Budget max 0 s) : max = some 0 := by
  rcases h with h | ⟨_, h⟩
  · exact h
  · exact absurd h (Nat.not_lt_zero _)

theorem Budget.ne_zero {max : Option Nat} {attempts : Nat} (h : Budget max (attempts + 1) s) :
    max ≠ some 0 := by
  rintro rfl
  rcases h with h | ⟨h, _⟩
  · cases h
  · cases h

theorem Budget.after {max : Option Nat} {attempts : Nat} {cs : List Char} {log : Array Event}
    (h : Budget max (attempts + 1) s) (reads : Utf8.encode cs <+: s.rest) (hne : cs ≠ []) :
    Budget (max.map (· - 1)) attempts (s.readOver cs log) := by
  rcases h with rfl | ⟨rfl, h⟩
  · exact Or.inl rfl
  · have hpos : (Utf8.encode cs).length ≠ 0 := fun h0 => hne (Utf8.length_encode_eq_zero.mp h0)
    have hlen := reads.length_le
    refine Or.inr ⟨rfl, ?_⟩
    rw [rest_readOver, List.length_drop]
    omega

/-- A repetition that ends after a text matches if it has enough matches. -/
theorem heeds_of_enough {p : Prop} {f : Matcher} {min matched count : Nat} {cs : List Char}
    {log : Array Event} (reads : Utf8.encode cs <+: s.rest)
    (hf : p → f s.rest = if min - matched ≤ count then some (Utf8.encode cs).length else none) :
    s.Heeds p B f (decide (min ≤ matched + count), s.readOver cs log) := by
  by_cases hm : min ≤ matched + count
  · rw [decide_eq_true hm]
    refine .matched reads ?_
    intro hp
    rw [hf hp, if_pos (by omega)]
  · rw [decide_eq_false hm, readOver_eq_strayed]
    refine .failed ?_
    intro hp
    rw [hf hp, if_neg (by omega)]
    exact Or.inl rfl

/-- A repetition tries its body at the error count that it began with, so below the limit only its
body can have it reached. That failure decides it unless it has enough matches without. -/
theorem repeatedFrom_heeds {body : Rule} {min : Nat} {B' : Prop} (hbody : body.Reliable l q B')
    (hB : B' → B) (hzero : l = some 0 → B) {max : Option Nat} {attempts matched : Nat}
    (hforgive : matched + attempts ≤ min ∨ (q → l ≠ some 0 → ¬ B'))
    (hbudget : Budget max attempts s) (h : s.InBounds) (hl : s.options.maxErrors = l) :
    s.Heeds (q ∧ s.HasRoom) B (Matcher.repeated (min - matched) max body.meaning)
      ((repeatedFrom min body.recognize attempts matched : ScanM Bool) s) := by
  -- on the attempts that are left: either the bound is used up or every match consumes a byte
  induction attempts generalizing s max matched with
  | zero =>
    rw [hbudget.zero]
    show s.Heeds _ B _ (decide (min ≤ matched + 0), s.readOver [] s.log)
    exact heeds_of_enough List.nil_prefix fun _ => Matcher.repeated_zero
  | succ attempts ih =>
    have hmax := hbudget.ne_zero
    rw [repeatedFrom_succ]
    by_cases hlim : s.atErrorLimit = true
    · rw [if_pos hlim]
      show s.Heeds _ B _ (false, s.readOver [] s.log)
      rw [readOver_eq_strayed]
      refine .failed fun hp => Or.inr ⟨?_, hlim⟩
      rcases hp.2 with hz | hroom
      · exact hzero (hl.symm.trans hz)
      -- whoever began with room still has it, because matches leave no errors
      · rw [hroom] at hlim
        cases hlim
    rw [if_neg hlim]
    have hr := hbody s h hl
    generalize body.recognize s = out at hr ⊢
    cases hr with
    | @matched cs log reads means =>
      show s.Heeds _ B _ (if (s.readOver cs log).cur.stop = s.cur.stop then _ else _)
      rw [cur_readOver, Cursor.stop_across]
      by_cases hne : cs = []
      · subst hne
        rw [if_pos (show s.cur.stop + (Utf8.encode []).length = s.cur.stop from rfl)]
        exact heeds_of_enough List.nil_prefix fun hp => Matcher.repeated_of_empty hmax (means hp)
      · have hpos : 0 < (Utf8.encode cs).length :=
          Nat.pos_of_ne_zero fun h0 => hne (Utf8.length_encode_eq_zero.mp h0)
        rw [if_neg (by omega)]
        have hforgive' : matched + 1 + attempts ≤ min ∨ (q → l ≠ some 0 → ¬ B') :=
          hforgive.imp_left fun hle => by omega
        refine Heeds.after reads (fun hp => ?_)
          (ih hforgive' (hbudget.after reads hne) (h.readOver reads) hl)
        rw [Matcher.repeated_of_some hmax (means hp) hpos reads.length_le, ← rest_readOver,
          Nat.sub_sub]
    | @failed m new log means =>
      rcases means with ⟨⟨rfl, _⟩, hno⟩
      show s.Heeds _ B _
        (decide (min ≤ matched), if min ≤ matched then Scanner.keepErrors _ _ else _)
      by_cases hm : min ≤ matched
      · rw [if_pos hm, keepErrors_report]
        show s.Heeds _ B _ (decide (min ≤ matched + 0), s.readOver [] log)
        refine heeds_of_enough List.nil_prefix fun hp => Matcher.repeated_of_none ?_
        have hl0 : l ≠ some 0 := by
          rintro rfl
          rw [atErrorLimit, hl] at hlim
          exact hlim (decide_eq_true (Nat.zero_le s.errors.size))
        -- it would match although the limit may have made its body fail: no steady rule does
        have hnB : ¬ B' := (hforgive.resolve_left (by omega)) hp.1 hl0
        exact (hno hp).resolve_right fun hc => hnB hc.1
      · rw [if_neg hm, decide_eq_false hm]
        refine .failed ?_
        intro hp
        refine (hno hp).imp ?_ (And.imp_left hB)
        intro hnone
        rw [Matcher.repeated_of_none hnone, if_neg (by omega)]

/-! ## Lookahead -/

theorem recognizeNotAhead_honors {body : Rule} {B' : Prop} (hbody : body.Reliable l q B')
    (hB : q → ¬ B') (kind : Kind) (h : s.InBounds) (hl : s.options.maxErrors = l) :
    s.Honors (q ∧ s.HasRoom) B (Matcher.notAhead body.meaning)
      (recognizeNotAhead kind body.recognize s) := by
  have hr := hbody s h hl
  unfold recognizeNotAhead
  generalize body.recognize s = out at hr ⊢
  cases hr with
  | @matched cs log reads means =>
    show s.Honors _ B _ (false, (s.readOver cs log).failAt s.cur kind)
    rw [readOver_eq_strayed, failAt_strayed h]
    refine .reported ⟨⟨rfl, by simp⟩, fun hp => Or.inl ?_⟩
    rw [Matcher.notAhead, means hp]
    rfl
  | @failed m new log means =>
    rcases means with ⟨⟨rfl, _⟩, hno⟩
    show s.Honors _ B _ (true, (s.strayed s.cur new log).keepErrors s.errors.size)
    rw [keepErrors_report]
    refine .matched List.nil_prefix ?_
    intro hp
    -- a failure of the body is a match here, so it must not be one of the limit
    rw [Matcher.notAhead, (hno hp).resolve_right fun hc => hB hp.1 hc.1]
    rfl

theorem recognizeAhead_honors {body : Rule} (hbody : body.Reliable l q B) (kind : Kind)
    (h : s.InBounds) (hl : s.options.maxErrors = l) :
    s.Honors (q ∧ s.HasRoom) B (Matcher.ahead body.meaning)
      (recognizeAhead kind body.recognize s) := by
  have hr := hbody s h hl
  unfold recognizeAhead
  generalize body.recognize s = out at hr ⊢
  cases hr with
  | @matched cs log reads means =>
    show s.Honors _ B _ (true, (s.readOver cs log).moveTo s.cur)
    rw [moveTo_readOver h]
    refine .matched List.nil_prefix ?_
    intro hp
    rw [Matcher.ahead, means hp]
    rfl
  | @failed m new log means =>
    simp only [failComposite_strayed h]
    refine .reported ⟨⟨rfl, s.append_ownError_ne kind new⟩, ?_⟩
    intro hp
    refine (means.2 hp).imp ?_ (And.imp_right fun hlim => hlim.append _)
    intro hnone
    rw [Matcher.ahead, hnone]
    rfl

/-! ## All rules -/

/-- Induction over rules without custom rules, where all that counts of a rule without parts is that
it reads code points by some matcher. -/
theorem plain_induction_reads {P : Rule → Prop}
    (seq : ∀ kind parts, (∀ r ∈ parts, P r) → P (.seq kind parts))
    (choice : ∀ kind alternatives, (∀ r ∈ alternatives, P r) → P (.choice kind alternatives))
    (repetition : ∀ kind body min max, P body → P (.repetition kind body min max))
    (notAhead : ∀ kind body, P body → P (.notAhead kind body))
    (ahead : ∀ kind body, P body → P (.ahead kind body))
    (token : ∀ (r : Rule) kind,
      (∀ s : Scanner, s.InBounds → s.Reads r.meaning kind (r.recognize s)) → P r)
    {r : Rule} (hr : r.IsPlain) : P r := by
  refine plain_induction seq choice repetition notAhead ahead ?_ ?_ ?_ hr
  · intro kind text
    exact token _ kind fun s h => readLiteral_reads h kind text
  · intro kind name accepts
    exact token _ kind fun s h => readOne_reads h kind accepts
  · intro b
    exact token _ b.kind fun s h => Builtin.recognize_reads h b

theorem reliable_seq (kind : Kind) (parts : List Rule)
    (ih : ∀ r ∈ parts, r.Reliable l (r.steady l = true) (r.breakable l = true)) :
    (seq kind parts).Reliable l ((seq kind parts).steady l = true)
      ((seq kind parts).breakable l = true) := by
  intro s h hl
  rw [meaning, meanings_eq_map, recognize, recognizeEach_eq_map]
  refine recognizeComposite_honors h kind (inOrder_heeds ?_ h hl)
  intro r hr
  exact (ih r hr).imp (steady_of_part hr) (breakable_of_part hr)

theorem reliable_choice (kind : Kind) (alternatives : List Rule)
    (ih : ∀ r ∈ alternatives, r.Reliable l (r.steady l = true) (r.breakable l = true)) :
    (choice kind alternatives).Reliable l ((choice kind alternatives).steady l = true)
      ((choice kind alternatives).breakable l = true) := by
  intro s h hl
  have hB : l ≠ none → (choice kind alternatives).breakable l = true := by
    intro hne
    rcases Option.ne_none_iff_exists'.mp hne with ⟨n, rfl⟩
    exact breakable_choice
  have hrs : ∀ r ∈ alternatives, r.Reliable l ((choice kind alternatives).steady l = true)
      ((choice kind alternatives).breakable l = true) :=
    fun r hr => (ih r hr).imp (steady_of_part hr) (breakable_of_part hr)
  have hc := firstOfFrom_heeds hrs hB kind h hl #[] s.log
  rw [meaning, meanings_eq_map, recognize, recognizeEach_eq_map]
  apply recognizeComposite_honors h kind
  rw [firstOf_eq]
  rwa [report_empty] at hc

theorem reliable_repetition (kind : Kind) (body : Rule) (min : Nat) (max : Option Nat)
    (ih : body.Reliable l (body.steady l = true) (body.breakable l = true)) :
    (repetition kind body min max).Reliable l ((repetition kind body min max).steady l = true)
      ((repetition kind body min max).breakable l = true) := by
  intro s h hl
  have hb : body ∈ (repetition kind body min max).parts := List.mem_singleton_self body
  rw [meaning, recognize]
  apply recognizeComposite_honors h kind
  rw [repeated_eq, ← Nat.sub_zero min]
  refine repeatedFrom_heeds (ih.imp (steady_of_part hb) id) (breakable_of_part hb) ?_ ?_ ?_ h hl
  · rintro rfl
    exact breakable_repetition_zero
  · cases hf : forgives min max with
    -- either a steady body is not cut short, or there are not enough attempts to forgive it
    | true =>
      apply Or.inr
      intro hs hl0 hbr
      have hm := misjudges_eq_false hs
      rw [misjudges, hf, hbr] at hm
      simp [hl0] at hm
    | false =>
      obtain ⟨k, rfl, hk⟩ : ∃ k, max = some k ∧ k ≤ min := by
        cases max with
        | none => cases hf
        | some k => exact ⟨k, rfl, Nat.le_of_not_lt (of_decide_eq_false hf)⟩
      apply Or.inl
      rw [Option.getD_some, Nat.zero_add]
      exact hk
  · cases max with
    | none =>
      refine Or.inr ⟨rfl, ?_⟩
      rw [length_rest, Option.getD_none, attemptBound]
      omega
    | some k => exact Or.inl rfl

theorem reliable_notAhead (kind : Kind) (body : Rule)
    (ih : body.Reliable l (body.steady l = true) (body.breakable l = true)) :
    (notAhead kind body).Reliable l ((notAhead kind body).steady l = true)
      ((notAhead kind body).breakable l = true) := by
  intro s h hl
  have hb : body ∈ (notAhead kind body).parts := List.mem_singleton_self body
  refine recognizeNotAhead_honors (ih.imp (steady_of_part hb) id) ?_ kind h hl
  intro hs hbr
  have hm : body.breakable l = false := misjudges_eq_false hs
  rw [hm] at hbr
  cases hbr

theorem reliable_ahead (kind : Kind) (body : Rule)
    (ih : body.Reliable l (body.steady l = true) (body.breakable l = true)) :
    (ahead kind body).Reliable l ((ahead kind body).steady l = true)
      ((ahead kind body).breakable l = true) := by
  intro s h hl
  have hb : body ∈ (ahead kind body).parts := List.mem_singleton_self body
  exact recognizeAhead_honors (ih.imp (steady_of_part hb) (breakable_of_part hb)) kind h hl

/-- Every rule without custom rules honors the contract, and where it is steady its meaning. -/
theorem reliable_of_plain {r : Rule} (hr : r.IsPlain) (l : Option Nat) :
    r.Reliable l (r.steady l = true) (r.breakable l = true) := by
  refine plain_induction_reads reliable_seq reliable_choice reliable_repetition reliable_notAhead
    reliable_ahead ?_ hr
  intro r kind h s hs _
  exact (h s hs).follows.honors

end Rule

end PegKit
