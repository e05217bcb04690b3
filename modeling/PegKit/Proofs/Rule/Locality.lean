import Mathlib.Data.List.Forall2
import PegKit.Proofs.Rule.Recognition

/-! # Recognition looks ahead only

What a rule does is settled by the bytes that lie ahead, the error limit and the number of errors
on the stack. Two scanners that agree on these may lie anywhere in different buffers, and differ in
everything else.

* `Scanner.Agree` is what two scanners have in common, and `Scanner.InStep` what two actions have
  that begin at them: they read one text, or fail with errors that are `Remark`s on one text.
* `Rule.IsLocal`: an action is in step with itself wherever the scanners agree.
* `inOrder_local`, `firstOfFrom_local` and `repeatedFrom_local`: one lemma for each way to run
  parts.
* `recognize_of_same_rest`: the runs of a rule at scanners that agree answer alike, consume as much
  and push errors for the same kinds at the same distances.
-/

namespace PegKit

/-! ## Errors, seen from where an action began -/

/-- An error apart from where it stands in the input: its kind, and the text between the cursor at
which the action began and the place of the error. -/
structure Remark where
  kind : Kind
  passed : List Char

namespace Remark

/-- The error that the remark stands for where an action began at `m`. -/
def placed (m : Cursor) (r : Remark) : Expectation :=
  ⟨r.kind, m.across r.passed⟩

/-- The remark, where the action began before the text `cs` already. -/
def behind (cs : List Char) (r : Remark) : Remark :=
  ⟨r.kind, cs ++ r.passed⟩

theorem placed_behind (m : Cursor) (cs : List Char) (r : Remark) :
    (r.behind cs).placed m = r.placed (m.across cs) := by
  rw [placed, placed, behind, Cursor.across_append]

end Remark

namespace Scanner

variable {s t : Scanner} {out out' : Bool × Scanner} {cs : List Char} {rs : Array Remark}
  {log log' : Array Event}

/-- The errors that some remarks stand for where an action began at `s`. -/
def errorsOf (s : Scanner) (rs : Array Remark) : Array Expectation :=
  rs.map (Remark.placed s.cur)

theorem errorsOf_append (s : Scanner) (rs rs' : Array Remark) :
    s.errorsOf (rs ++ rs') = s.errorsOf rs ++ s.errorsOf rs' :=
  Array.map_append

@[simp] theorem errorsOf_empty (s : Scanner) : s.errorsOf #[] = #[] :=
  Array.map_empty

/-- The remark without a text is an error where the action began. -/
@[simp] theorem errorsOf_singleton (s : Scanner) (kind : Kind) :
    s.errorsOf #[⟨kind, []⟩] = #[⟨kind, s.cur⟩] :=
  Array.map_singleton

theorem size_errorsOf (s : Scanner) (rs : Array Remark) : (s.errorsOf rs).size = rs.size :=
  Array.size_map

/-- Remarks on what follows a text are remarks on the text and what follows. -/
theorem errorsOf_readOver :
    (s.readOver cs log).errorsOf rs = s.errorsOf (rs.map (Remark.behind cs)) := by
  rw [errorsOf, errorsOf, Array.map_map]
  exact congrArg (rs.map ·) (funext fun r => (r.placed_behind s.cur cs).symm)

/-- The remark of a composite rule, by the remarks of its parts. -/
def ownRemark (kind : Kind) (rs : Array Remark) : Array Remark :=
  if kind ≠ untyped ∨ rs = #[] then #[⟨kind, []⟩] else #[]

theorem ownError_errorsOf (s : Scanner) (kind : Kind) (rs : Array Remark) :
    s.ownError kind (s.errorsOf rs) = s.errorsOf (ownRemark kind rs) := by
  have he : s.errorsOf rs = #[] ↔ rs = #[] := Array.map_eq_empty_iff
  by_cases hk : kind ≠ untyped ∨ rs = #[]
  · rw [ownRemark, if_pos hk, ownError, if_pos (hk.imp_right he.mpr), errorsOf_singleton]
  · rw [ownRemark, if_neg hk, ownError, if_neg fun hk' => hk (hk'.imp_right he.mp), errorsOf_empty]

/-! ## Scanners that agree -/

/-- Two scanners that have in common what recognition goes by. -/
structure Agree (s t : Scanner) : Prop where
  left : s.InBounds
  right : t.InBounds
  rest : s.rest = t.rest
  limit : s.options.maxErrors = t.options.maxErrors
  count : s.errors.size = t.errors.size

/-- They agree behind a text that comes next. -/
theorem Agree.readOver (h : s.Agree t) (reads : Utf8.encode cs <+: s.rest) :
    (s.readOver cs log).Agree (t.readOver cs log') where
  left := h.left.readOver reads
  right := h.right.readOver (h.rest ▸ reads)
  rest := by rw [rest_readOver, rest_readOver, h.rest]
  limit := h.limit
  count := h.count

/-- They agree with errors for the same remarks on top. -/
theorem Agree.report (h : s.Agree t) :
    (s.report (s.errorsOf rs) log).Agree (t.report (t.errorsOf rs) log') where
  left := h.left
  right := h.right
  rest := h.rest
  limit := h.limit
  count := by
    rw [Scanner.report, Scanner.report, size_errors_strayed, size_errors_strayed, size_errorsOf,
      size_errorsOf, h.count]

theorem Agree.atErrorLimit (h : s.Agree t) : s.atErrorLimit = t.atErrorLimit := by
  rw [Scanner.atErrorLimit, Scanner.atErrorLimit, h.limit, h.count]

theorem Agree.attemptBound (h : s.Agree t) : Rule.attemptBound s = Rule.attemptBound t := by
  rw [Rule.attemptBound, Rule.attemptBound, ← length_rest, ← length_rest, h.rest]

/-! ## Actions in step -/

/-- Two actions, begun at `s` and at `t`, come to the same. If they match they have read the same
text, and if they fail they leave the same remarks, and cursors `m` and `m'` with `F m m'`. -/
inductive InStep (s t : Scanner) (F : Cursor → Cursor → Prop) :
    Bool × Scanner → Bool × Scanner → Prop where
  | matched {cs : List Char} {log log' : Array Event} (reads : Utf8.encode cs <+: s.rest) :
    InStep s t F (true, s.readOver cs log) (true, t.readOver cs log')
  | failed {m m' : Cursor} {rs : Array Remark} {log log' : Array Event} (stays : F m m') :
    InStep s t F (false, s.strayed m (s.errorsOf rs) log) (false, t.strayed m' (t.errorsOf rs) log')

/-- In step, and a failure goes back to where the actions began. -/
def Alike (s t : Scanner) : Bool × Scanner → Bool × Scanner → Prop :=
  s.InStep t fun m m' => m = s.cur ∧ m' = t.cur

/-- In step, where a failure may leave the cursors anywhere. -/
def Astray (s t : Scanner) : Bool × Scanner → Bool × Scanner → Prop :=
  s.InStep t fun _ _ => True

theorem Alike.reported :
    s.Alike t (false, s.report (s.errorsOf rs) log) (false, t.report (t.errorsOf rs) log') :=
  .failed ⟨rfl, rfl⟩

/-- Matches that read nothing are in step. -/
theorem InStep.stayed {F : Cursor → Cursor → Prop} :
    s.InStep t F (true, s.strayed s.cur #[] log) (true, t.strayed t.cur #[] log') := by
  rw [← Cursor.across_nil s.cur, ← Cursor.across_nil t.cur, ← readOver_eq_strayed,
    ← readOver_eq_strayed]
  exact .matched List.nil_prefix

/-- Actions that read one text and give one answer are in step, also if the answer is that they
failed. -/
theorem Astray.ended (b : Bool) (reads : Utf8.encode cs <+: s.rest) :
    s.Astray t (b, s.readOver cs log) (b, t.readOver cs log') := by
  cases b with
  | true => exact .matched reads
  | false =>
    have hf : s.Astray t (false, s.strayed (s.cur.across cs) (s.errorsOf #[]) log)
        (false, t.strayed (t.cur.across cs) (t.errorsOf #[]) log') := .failed trivial
    rwa [errorsOf_empty, errorsOf_empty, ← readOver_eq_strayed, ← readOver_eq_strayed] at hf

theorem Astray.unmoved (b : Bool) : s.Astray t (b, s) (b, t) :=
  @Astray.ended s t [] s.log t.log b List.nil_prefix

/-- Actions that are in step behind a text that was read are in step with the text before them. -/
theorem Astray.after (reads : Utf8.encode cs <+: s.rest)
    (h : (s.readOver cs log).Astray (t.readOver cs log') out out') : s.Astray t out out' := by
  cases h with
  | matched reads' =>
    rw [readOver_readOver, readOver_readOver]
    exact .matched (prefix_encode_append reads reads')
  | failed =>
    rw [readOver_strayed, readOver_strayed, errorsOf_readOver, errorsOf_readOver]
    exact .failed trivial

/-- A matcher and a kind leave no choice but what to log. -/
theorem Reads.alike {f : Matcher} {kind : Kind} (h : s.Agree t) (hs : s.Reads f kind out)
    (ht : t.Reads f kind out') : s.Alike t out out' := by
  cases hs with
  | matched reads means =>
    cases ht with
    | matched reads' means' =>
      rw [← h.rest] at reads' means'
      -- two texts of the same length begin the same bytes
      have hl := Option.some.inj (means.symm.trans means')
      rw [← Utf8.encode_inj reads reads' hl]
      exact .matched reads
    | failed means' =>
      rw [← h.rest, means] at means'
      cases means'.2.2
  | failed means =>
    rcases means with ⟨rfl, rfl, hno⟩
    cases ht with
    | matched reads' means' =>
      rw [← h.rest, hno] at means'
      cases means'
    | failed means' =>
      rcases means' with ⟨rfl, rfl, _⟩
      rw [← errorsOf_singleton, ← errorsOf_singleton]
      exact .reported

end Scanner

namespace Rule

open Scanner

/-- Wherever two scanners agree, the action is in step with itself. -/
def IsLocal (x : ScanM Bool) : Prop :=
  ∀ s t : Scanner, s.Agree t → s.Alike t (x s) (x t)

variable {s t : Scanner} {x : ScanM Bool} {xs : List (ScanM Bool)}

theorem local_of_reads {f : Matcher} {kind : Kind}
    (h : ∀ s : Scanner, s.InBounds → s.Reads f kind (x s)) : IsLocal x :=
  fun s t ha => (h s ha.left).alike ha (h t ha.right)

/-! ## Composite rules -/

theorem recognizeComposite_alike (h : s.Agree t) (kind : Kind) {fill : ScanM Bool}
    (hf : s.Astray t (fill s) (fill t)) :
    s.Alike t (recognizeComposite kind fill s) (recognizeComposite kind fill t) := by
  unfold recognizeComposite
  generalize fill s = out at hf ⊢
  generalize fill t = out' at hf ⊢
  cases hf with
  | matched reads => exact .matched reads
  | failed =>
    simp only [failComposite_strayed h.left, failComposite_strayed h.right, ownError_errorsOf,
      ← errorsOf_append]
    exact .reported

theorem inOrder_local (hxs : ∀ x ∈ xs, IsLocal x) (h : s.Agree t) :
    s.Astray t ((inOrder xs : ScanM Bool) s) ((inOrder xs : ScanM Bool) t) := by
  induction xs generalizing s t with
  | nil => exact .unmoved true
  | cons x xs ih =>
    -- the rest of the sequence starts at the scanners that the first part leaves
    have hx := hxs x List.mem_cons_self s t h
    rw [inOrder_cons, inOrder_cons]
    generalize x s = out at hx ⊢
    generalize x t = out' at hx ⊢
    cases hx with
    | matched reads =>
      exact .after reads (ih (fun y hy => hxs y (List.mem_cons_of_mem x hy)) (h.readOver reads))
    | failed => exact .failed trivial

/-- The alternatives of a choice are tried where it began, each with the errors of those before it
on the stack. -/
theorem firstOfFrom_local (hxs : ∀ x ∈ xs, IsLocal x) (kind : Kind) (h : s.Agree t)
    (rs : Array Remark) (log log' : Array Event) :
    s.Astray t
      ((firstOfFrom kind s.errors.size xs : ScanM Bool) (s.report (s.errorsOf rs) log))
      ((firstOfFrom kind t.errors.size xs : ScanM Bool) (t.report (t.errorsOf rs) log')) := by
  -- on the alternatives, with the remarks of those that failed before
  induction xs generalizing rs log log' with
  | nil => exact .failed trivial
  | cons x xs ih =>
    have hr : (s.report (s.errorsOf rs) log).Agree (t.report (t.errorsOf rs) log') := h.report
    have hx := hxs x List.mem_cons_self _ _ hr
    rw [firstOfFrom_cons, firstOfFrom_cons, hr.atErrorLimit]
    by_cases hl : (t.report (t.errorsOf rs) log').atErrorLimit = true
    · rw [if_pos hl, if_pos hl]
      exact .failed trivial
    rw [if_neg hl, if_neg hl]
    generalize x (s.report (s.errorsOf rs) log) = out at hx ⊢
    generalize x (t.report (t.errorsOf rs) log') = out' at hx ⊢
    cases hx with
    | @matched cs log1 log1' reads =>
      show s.Astray t
        (true, ((s.strayed s.cur (s.errorsOf rs) log).readOver cs log1).keepErrors _)
        (true, ((t.strayed t.cur (t.errorsOf rs) log').readOver cs log1').keepErrors _)
      rw [readOver_eq_strayed, readOver_eq_strayed, strayed_strayed, strayed_strayed,
        keepErrors_strayed, keepErrors_strayed]
      exact readOver_eq_strayed (s := s) ▸ readOver_eq_strayed (s := t) ▸ .matched reads
    | @failed m m' rs' log1 log1' stays =>
      rcases stays with ⟨rfl, rfl⟩
      show s.Astray t
        (firstOfFrom kind s.errors.size xs
          ((s.strayed s.cur (s.errorsOf rs) log).strayed s.cur (s.errorsOf rs') log1))
        (firstOfFrom kind t.errors.size xs
          ((t.strayed t.cur (t.errorsOf rs) log').strayed t.cur (t.errorsOf rs') log1'))
      rw [strayed_strayed, strayed_strayed, ← errorsOf_append, ← errorsOf_append]
      exact ih (fun y hy => hxs y (List.mem_cons_of_mem x hy)) (rs ++ rs') log1 log1'

/-- A repetition counts its matches, and measures what the last one read by the cursor. -/
theorem repeatedFrom_local (hx : IsLocal x) (min attempts matched : Nat) (h : s.Agree t) :
    s.Astray t ((repeatedFrom min x attempts matched : ScanM Bool) s)
      ((repeatedFrom min x attempts matched : ScanM Bool) t) := by
  -- on the attempts that are left, which are as many at both scanners
  induction attempts generalizing s t matched with
  | zero => exact .unmoved _
  | succ attempts ih =>
    have hx' := hx s t h
    rw [repeatedFrom_succ, repeatedFrom_succ, h.atErrorLimit]
    by_cases hl : t.atErrorLimit = true
    · rw [if_pos hl, if_pos hl]
      exact .unmoved false
    rw [if_neg hl, if_neg hl]
    generalize x s = out at hx' ⊢
    generalize x t = out' at hx' ⊢
    cases hx' with
    | @matched cs log log' reads =>
      show s.Astray t
        (if (s.readOver cs log).cur.stop = s.cur.stop then _ else _)
        (if (t.readOver cs log').cur.stop = t.cur.stop then _ else _)
      simp only [cur_readOver, Cursor.stop_across, Nat.add_eq_left]
      by_cases hc : (Utf8.encode cs).length = 0
      · rw [if_pos hc, if_pos hc]
        exact .ended _ reads
      · rw [if_neg hc, if_neg hc]
        exact .after reads (ih (matched + 1) (h.readOver reads))
    | @failed m m' rs log log' stays =>
      rcases stays with ⟨rfl, rfl⟩
      show s.Astray t
        (decide (min ≤ matched), if min ≤ matched then Scanner.keepErrors _ _ else _)
        (decide (min ≤ matched), if min ≤ matched then Scanner.keepErrors _ _ else _)
      by_cases hm : min ≤ matched
      -- enough matches, so the failure that ends them is forgotten
      · rw [if_pos hm, if_pos hm, decide_eq_true hm, keepErrors_strayed, keepErrors_strayed]
        exact .stayed
      · rw [if_neg hm, if_neg hm, decide_eq_false hm]
        exact .failed trivial

/-! ## Lookahead -/

theorem recognizeNotAhead_local (hx : IsLocal x) (kind : Kind) :
    IsLocal (recognizeNotAhead kind x) := by
  intro s t h
  have hx' := hx s t h
  unfold recognizeNotAhead
  generalize x s = out at hx' ⊢
  generalize x t = out' at hx' ⊢
  cases hx' with
  | @matched cs log log' reads =>
    show s.Alike t (false, (s.readOver cs log).failAt s.cur kind)
      (false, (t.readOver cs log').failAt t.cur kind)
    rw [readOver_eq_strayed, readOver_eq_strayed, failAt_strayed h.left, failAt_strayed h.right,
      Array.empty_append, Array.empty_append, ← errorsOf_singleton, ← errorsOf_singleton]
    exact .reported
  | @failed m m' rs log log' stays =>
    rcases stays with ⟨rfl, rfl⟩
    show s.Alike t (true, (s.strayed s.cur _ log).keepErrors s.errors.size)
      (true, (t.strayed t.cur _ log').keepErrors t.errors.size)
    rw [keepErrors_strayed, keepErrors_strayed]
    exact .stayed

theorem recognizeAhead_local (hx : IsLocal x) (kind : Kind) :
    IsLocal (recognizeAhead kind x) := by
  intro s t h
  have hx' := hx s t h
  unfold recognizeAhead
  generalize x s = out at hx' ⊢
  generalize x t = out' at hx' ⊢
  cases hx' with
  | @matched cs log log' reads =>
    show s.Alike t (true, (s.readOver cs log).moveTo s.cur)
      (true, (t.readOver cs log').moveTo t.cur)
    rw [readOver_eq_strayed, readOver_eq_strayed, moveTo_strayed h.left, moveTo_strayed h.right]
    exact .stayed
  | failed =>
    simp only [failComposite_strayed h.left, failComposite_strayed h.right, ownError_errorsOf,
      ← errorsOf_append]
    exact .reported

/-! ## All rules -/

theorem recognizeEach_local {rs : List Rule} (ih : ∀ r ∈ rs, IsLocal r.recognize) :
    ∀ x ∈ recognizeEach rs, IsLocal x := by
  rw [recognizeEach_eq_map]
  intro x hx
  rcases List.mem_map.mp hx with ⟨r, hr, rfl⟩
  exact ih r hr

theorem local_seq (kind : Kind) (parts : List Rule) (ih : ∀ r ∈ parts, IsLocal r.recognize) :
    IsLocal (seq kind parts).recognize := by
  intro s t h
  rw [recognize]
  exact recognizeComposite_alike h kind (inOrder_local (recognizeEach_local ih) h)

theorem local_choice (kind : Kind) (alternatives : List Rule)
    (ih : ∀ r ∈ alternatives, IsLocal r.recognize) :
    IsLocal (choice kind alternatives).recognize := by
  intro s t h
  have hc := firstOfFrom_local (recognizeEach_local ih) kind h #[] s.log t.log
  rw [errorsOf_empty, errorsOf_empty, report_empty, report_empty] at hc
  rw [recognize]
  apply recognizeComposite_alike h kind
  rwa [firstOf_eq, firstOf_eq]

theorem local_repetition (kind : Kind) (body : Rule) (min : Nat) (max : Option Nat)
    (ih : IsLocal body.recognize) : IsLocal (repetition kind body min max).recognize := by
  intro s t h
  rw [recognize]
  apply recognizeComposite_alike h kind
  rw [repeated_eq, repeated_eq, h.attemptBound]
  exact repeatedFrom_local ih min _ 0 h

/-- Every rule without custom rules looks ahead only. -/
theorem local_of_plain {r : Rule} (hr : r.IsPlain) : IsLocal r.recognize := by
  refine plain_induction_reads local_seq local_choice local_repetition ?_ ?_ ?_ hr
  · intro kind body ih
    exact recognizeNotAhead_local ih kind
  · intro kind body ih
    exact recognizeAhead_local ih kind
  · intro r kind h
    exact local_of_reads h

/-! ## Runs at two scanners -/

/-- An error of a run that began at `s` and one of a run that began at `t`: of one kind, and as far
from where the runs began. -/
def SameDistance (s t : Scanner) (e e' : Expectation) : Prop :=
  e.kind = e'.kind ∧ ∃ d, e.place.stop = s.cur.stop + d ∧ e'.place.stop = t.cur.stop + d

theorem forall₂_errorsOf (s t : Scanner) (rs : Array Remark) :
    List.Forall₂ (SameDistance s t) (s.errorsOf rs).toList (t.errorsOf rs).toList := by
  rw [errorsOf, errorsOf, Array.toList_map, Array.toList_map, List.forall₂_map_left_iff,
    List.forall₂_map_right_iff, List.forall₂_same]
  intro r _
  exact ⟨rfl, (Utf8.encode r.passed).length, Cursor.stop_across _ _, Cursor.stop_across _ _⟩

/-- Two scanners with the same bytes ahead, the same error limit and as many errors: a rule without
custom rules gives the same answer at both, consumes as many bytes, and pushes as many errors, of
the same kinds and at the same distances from where it began. -/
theorem recognize_of_same_rest {r : Rule} {s t : Scanner} (hr : r.IsPlain) (hs : s.InBounds)
    (ht : t.InBounds) (hrest : s.rest = t.rest)
    (hlimit : s.options.maxErrors = t.options.maxErrors)
    (hcount : s.errors.size = t.errors.size) :
    (r.recognize s).1 = (r.recognize t).1 ∧
    (∃ n, (r.recognize s).2.cur.stop = s.cur.stop + n ∧
      (r.recognize t).2.cur.stop = t.cur.stop + n) ∧
    ∃ new new' : Array Expectation,
      (r.recognize s).2.errors = s.errors ++ new ∧ (r.recognize t).2.errors = t.errors ++ new' ∧
        List.Forall₂ (SameDistance s t) new.toList new'.toList := by
  have hl := local_of_plain hr s t ⟨hs, ht, hrest, hlimit, hcount⟩
  generalize r.recognize s = out at hl ⊢
  generalize r.recognize t = out' at hl ⊢
  cases hl with
  | @matched cs log log' reads =>
    refine ⟨rfl, ⟨(Utf8.encode cs).length, ?_, ?_⟩, #[], #[], ?_, ?_, .nil⟩
    · exact Cursor.stop_across s.cur cs
    · exact Cursor.stop_across t.cur cs
    · rw [errors_readOver, Array.append_empty]
    · rw [errors_readOver, Array.append_empty]
  | @failed m m' rs log log' stays =>
    rcases stays with ⟨rfl, rfl⟩
    exact ⟨rfl, ⟨0, rfl, rfl⟩, s.errorsOf rs, t.errorsOf rs, rfl, rfl, forall₂_errorsOf s t rs⟩

/-- A choice that the error limit cuts short behind a literal, at the beginning of a buffer and
behind another text. What happens there follows from what happens at the beginning. -/
theorem recognize_of_same_rest_moved :
    let r := seq 1 [literal 2 "ab", choice 0 [literal 3 "cd", builtin .digit]]
    let s : Scanner :=
      { buf := #[0x61, 0x62, 0x78], errors := #[⟨7, .origin⟩], options := { maxErrors := some 2 } }
    let t : Scanner :=
      { buf := #[0xC3, 0xA9, 0x61, 0x62, 0x78], cur := ⟨'é', 0, 2⟩, errors := #[⟨-4, ⟨'é', 0, 2⟩⟩],
        options := ⟨some 2, 0, true, [], true⟩ }
    r.IsPlain ∧ s.InBounds ∧ t.InBounds ∧ s.rest = t.rest ∧
      s.options.maxErrors = t.options.maxErrors ∧ s.errors.size = t.errors.size ∧
      (r.recognize t).1 = false ∧
      ∃ new new' : Array Expectation,
        (r.recognize s).2.errors = s.errors ++ new ∧ (r.recognize t).2.errors = t.errors ++ new' ∧
          new.map (·.kind) = #[3, 1] ∧ List.Forall₂ (SameDistance s t) new.toList new'.toList := by
  intro r s t
  have hr : r.IsPlain := ⟨trivial, ⟨trivial, trivial, trivial⟩, trivial⟩
  have hs : s.InBounds := ⟨by decide, by decide⟩
  have ht : t.InBounds := ⟨by decide, by decide⟩
  have hrun : (r.recognize s).1 = false ∧
      (r.recognize s).2.errors.map (·.kind) = #[7, 3, 1] := by decide +kernel
  rcases recognize_of_same_rest hr hs ht rfl rfl rfl with ⟨hb, _, new, new', hn, hn', hd⟩
  refine ⟨hr, hs, ht, rfl, rfl, rfl, hb ▸ hrun.1, new, new', hn, hn', ?_, hd⟩
  have hk := hrun.2
  rw [hn, Array.map_append, show s.errors.map (·.kind) = #[7] from Array.map_singleton] at hk
  exact (Array.append_right_inj #[7]).mp hk

end Rule

end PegKit
