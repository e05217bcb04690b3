import PegKit.Proofs.Rule.Building
import PegKit.Proofs.Rule.Contract
import PegKit.Proofs.Rule.Unbounded

/-! # Termination

Without any bound on their loops, rules without custom rules end all the same, and with the results
that they have with the bounds.

* `Filled`, `Kept` and `Made` say what parts, rules and parses leave: the bytes are the same, a
  match does not go back, and the tree only grows.
* `EndsAs`: an unbounded action ends, as the bounded one does.
* `repeatedFrom_ends`: a repetition ends after at most one attempt more than there are bytes ahead,
  because all attempts but the last bring the end of the buffer nearer.
* `ends_of_plain` is the induction over rules, and `loops_end` what it comes to.
-/

namespace PegKit.Unbounded

open Scanner

/-! ## What is left -/

/-- What the parts of a rule leave. -/
structure Filled (s : Scanner) (t : Tree) (b : Bool) (s' : Scanner) (u : Tree) : Prop where
  buf_eq : s'.buf = s.buf
  inBounds : s'.InBounds
  /-- A match does not go back. -/
  le_stop : b = true → s.cur.stop ≤ s'.cur.stop
  extended : u.Extends t

/-- What a rule leaves. -/
structure Kept (s : Scanner) (t : Tree) (b : Bool) (s' : Scanner) (u : Tree) : Prop
    extends Filled s t b s' u where
  /-- A failure goes back to where the rule began. -/
  cur_eq : b = false → s'.cur = s.cur

/-- What a parse leaves. -/
structure Made (s : Scanner) (t : Tree) (o : Option NodeId) (s' : Scanner) (u : Tree) : Prop
    extends Kept s t o.isSome s' u where
  /-- The node that it returns is a new one. -/
  isNew : ∀ id, o = some id → t.size ≤ id ∧ id < u.size

section Left

variable {s s₁ s' : Scanner} {t u v : Tree} {b : Bool}

theorem Filled.refl (h : s.InBounds) (ht : t.Sound) (b : Bool) : Filled s t b s t :=
  ⟨rfl, h, fun _ => Nat.le_refl _, .refl ht⟩

/-- What follows a match. -/
theorem Filled.trans (h : Filled s t true s₁ u) (h' : Filled s₁ u b s' v) : Filled s t b s' v where
  buf_eq := h'.buf_eq.trans h.buf_eq
  inBounds := h'.inBounds
  le_stop hb := Nat.le_trans (h.le_stop rfl) (h'.le_stop hb)
  extended := h'.extended.trans h.extended

/-- What follows a failure. -/
theorem Kept.trans (h : Kept s t false s₁ u) (h' : Filled s₁ u b s' v) : Filled s t b s' v where
  buf_eq := h'.buf_eq.trans h.buf_eq
  inBounds := h'.inBounds
  le_stop hb := h.cur_eq rfl ▸ h'.le_stop hb
  extended := h'.extended.trans h.extended

/-- A failure that counts as a match is one that reads nothing. -/
theorem Kept.forgiven (h : Kept s t false s₁ u) : Filled s t true s₁ u where
  buf_eq := h.buf_eq
  inBounds := h.inBounds
  le_stop _ := Nat.le_of_eq (congrArg Cursor.stop (h.cur_eq rfl).symm)
  extended := h.extended

/-- What happens to the errors and the log makes no difference. -/
theorem Filled.congr (h : Filled s t b s₁ u) (hb : s'.buf = s₁.buf) (hc : s'.cur = s₁.cur) :
    Filled s t b s' u where
  buf_eq := hb.trans h.buf_eq
  inBounds := show s'.cur.Fits s'.buf.size by rw [hb, hc]; exact h.inBounds
  le_stop hm := hc ▸ h.le_stop hm
  extended := h.extended

/-- A match that reads something leaves fewer bytes ahead. -/
theorem Filled.remaining_lt (h : Filled s t true s₁ u) (hne : s₁.cur.stop ≠ s.cur.stop) :
    s₁.remaining < s.remaining := by
  have hle := h.le_stop rfl
  have hfits := h.inBounds.2
  rw [remaining, remaining, ← h.buf_eq]
  omega

/-- A match keeps what its parts do. -/
theorem Filled.kept (h : Filled s t true s' u) : Kept s t true s' u where
  toFilled := h
  cur_eq hb := absurd hb.symm Bool.false_ne_true

/-- A failure at the cursor where the rule began. -/
theorem kept_of_failed (hb : s'.buf = s.buf) (hc : s'.cur = s.cur) (h : s'.InBounds)
    (hu : u.Extends t) : Kept s t false s' u where
  buf_eq := hb
  inBounds := h
  le_stop hb := absurd hb Bool.false_ne_true
  extended := hu
  cur_eq _ := hc

/-- A parse that fails returns no node. -/
theorem Kept.made_none (h : Kept s t false s' u) : Made s t none s' u where
  toKept := h
  isNew _ hid := absurd hid.symm (Option.some_ne_none _)

theorem kept_of_settles (h : s.InBounds) (ht : t.Sound) (hs : s.Settles (b, s')) :
    Kept s t b s' t := by
  cases hs with
  | matched reads =>
    refine Filled.kept ⟨rfl, h.readOver reads, fun _ => ?_, .refl ht⟩
    rw [cur_readOver, Cursor.stop_across]
    exact Nat.le_add_right _ _
  | failed means =>
    rcases means with ⟨rfl, _⟩
    exact kept_of_failed rfl rfl h (.refl ht)

theorem kept_of_failAt (h : s.InBounds) (ht : t.Sound) (hb : s₁.buf = s.buf) (kind : Kind) :
    Kept s t false (s₁.failAt s.cur kind) t := by
  have hfits : s.cur.Fits s₁.buf.size := hb ▸ h
  rw [failAt_of_fits hfits]
  exact kept_of_failed hb rfl hfits (.refl ht)

theorem kept_of_failComposite (h : s.InBounds) (ht : t.Sound) (hb : s₁.buf = s.buf) (kind : Kind)
    (base : Nat) : Kept s t false (s₁.failComposite s.cur kind base) t := by
  have hfits : s.cur.Fits s₁.buf.size := hb ▸ h
  rw [failComposite, moveTo_of_fits hfits]
  dsimp only
  split
  · exact kept_of_failed hb rfl hfits (.refl ht)
  · exact kept_of_failed hb rfl hfits (.refl ht)

/-- A match that makes a leaf. -/
theorem Filled.made_root (h : Filled s t true s₁ u) (ht : t.Sound) (kind : Kind) (value : String) :
    Made s t (some t.size) s₁ (t.makeRoot kind value).2 where
  toKept := Filled.kept
    ⟨h.buf_eq, h.inBounds, h.le_stop, (Tree.Extends.refl ht).makeRoot kind value⟩
  isNew := by
    rintro id ⟨⟩
    exact ⟨Nat.le_refl _, Tree.size_makeRoot ▸ Nat.lt_succ_self _⟩

end Left

/-! ## Ending alike -/

/-- The unbounded action `x` ends, as the bounded action `y` does, and `Q` holds of what they
leave. -/
def EndsAs {α : Type} (x : LoopM α) (y : ParseM α) (s : Scanner) (t : Tree)
    (Q : α → Scanner → Tree → Prop) : Prop :=
  ∃ a s' u, result x s t = some (.ok ((a, s'), u)) ∧ y s t = .ok ((a, s'), u) ∧ Q a s' u

/-- Where a rule sends what it makes is in the tree. -/
def Live : Sink → Tree → Prop
  | .nowhere, _ => True
  | .under p, t => p < t.size

theorem Live.of_extends {sink : Sink} {t u : Tree} (h : Live sink t) (hu : u.Extends t) :
    Live sink u := by
  cases sink with
  | nowhere => trivial
  | under p => exact Nat.lt_of_lt_of_le h hu.size_le

/-- The bounded action of a rule. -/
def bounded (r : Rule) : Sink → ParseM Bool
  | .nowhere => Rule.liftScan r.recognize
  | .under p => r.parseUnder p

/-- Wherever a rule is run and whatever it does with what it makes, it ends as with the bounds. -/
def Ends (r : Rule) : Prop :=
  ∀ sink s t, s.InBounds → t.Sound → Live sink t →
    EndsAs (perform r sink) (bounded r sink) s t (Kept s t)

/-- A recognition that ends ends with its answer and leaves the tree as it was. -/
theorem EndsAs.eq_of_liftScan {x : LoopM Bool} {f : ScanM Bool} {s : Scanner} {t : Tree}
    {Q : Bool → Scanner → Tree → Prop} (h : EndsAs x (Rule.liftScan f) s t Q) :
    result x s t = some (.ok (f s, t)) ∧ Q (f s).1 (f s).2 t := by
  rcases h with ⟨b, s', u, hx, hy, hq⟩
  rcases Prod.mk.inj (Except.ok.inj hy) with ⟨hf, rfl⟩
  rw [hf]
  exact ⟨hx, hq⟩

/-! ## Ways to run parts -/

section Parts

variable {sink : Sink} {s : Scanner} {t : Tree} {rs : List Rule}

theorem inOrder_ends (hrs : ∀ r ∈ rs, Ends r) (h : s.InBounds) (ht : t.Sound)
    (hl : Live sink t) :
    EndsAs (Rule.inOrder (rs.map (perform · sink))) (Rule.inOrder (rs.map (bounded · sink))) s t
      (Filled s t) := by
  induction rs generalizing s t with
  | nil => exact ⟨true, s, t, rfl, rfl, .refl h ht true⟩
  | cons r rs ih =>
    rcases hrs r List.mem_cons_self sink s t h ht hl with ⟨b, s₁, u, hx, hy, hk⟩
    rw [List.map_cons, List.map_cons, EndsAs, Rule.Parsing.inOrder_cons, Rule.inOrder,
      result_bind hx, hy]
    cases b with
    | false => exact ⟨false, s₁, u, rfl, rfl, hk.toFilled⟩
    | true =>
      rcases ih (fun r hr => hrs r (List.mem_cons_of_mem _ hr)) hk.inBounds hk.extended.sound
        (hl.of_extends hk.extended) with ⟨b, s', v, hx', hy', hf⟩
      exact ⟨b, s', v, hx', hy', hk.toFilled.trans hf⟩

theorem firstOfFrom_ends (hrs : ∀ r ∈ rs, Ends r) (kind : Kind) (base : Nat) (h : s.InBounds)
    (ht : t.Sound) (hl : Live sink t) :
    EndsAs (Rule.firstOfFrom kind base (rs.map (perform · sink)))
      (Rule.firstOfFrom kind base (rs.map (bounded · sink))) s t (Filled s t) := by
  induction rs generalizing s t with
  | nil => exact ⟨false, s, t, rfl, rfl, .refl h ht false⟩
  | cons r rs ih =>
    rcases hrs r List.mem_cons_self sink s t h ht hl with ⟨b, s₁, u, hx, hy, hk⟩
    rw [List.map_cons, List.map_cons, EndsAs, Rule.Parsing.firstOfFrom_cons, Rule.firstOfFrom,
      result_getScanner]
    by_cases hlim : s.atErrorLimit = true
    · rw [if_pos hlim, if_pos hlim, result_modifyScanner]
      exact ⟨false, _, t, rfl, rfl, (Filled.refl h ht false).congr rfl rfl⟩
    rw [if_neg hlim, if_neg hlim, result_bind hx, hy]
    cases b with
    | true => exact ⟨true, _, u, rfl, rfl, hk.toFilled.congr rfl rfl⟩
    | false =>
      rcases ih (fun r hr => hrs r (List.mem_cons_of_mem _ hr)) hk.inBounds hk.extended.sound
        (hl.of_extends hk.extended) with ⟨b, s', v, hx', hy', hf⟩
      exact ⟨b, s', v, hx', hy', hk.trans hf⟩

theorem firstOf_ends (hrs : ∀ r ∈ rs, Ends r) (kind : Kind) (h : s.InBounds) (ht : t.Sound)
    (hl : Live sink t) :
    EndsAs (Rule.firstOf kind (rs.map (perform · sink)))
      (Rule.firstOf kind (rs.map (bounded · sink))) s t (Filled s t) := by
  rcases firstOfFrom_ends hrs kind s.errors.size h ht hl with ⟨b, s', u, hx, hy, hf⟩
  refine ⟨b, s', u, ?_, hy, hf⟩
  rw [Rule.firstOf, result_getScanner, hx]

/-- The bounded loop has as many attempts left as the rule allows, or more than there are bytes
ahead. -/
def Suffices (max : Option Nat) (matched attempts : Nat) (s : Scanner) : Prop :=
  max = some (matched + attempts) ∨ max = none ∧ s.remaining < attempts

theorem suffices_attemptBound (max : Option Nat) (s : Scanner) :
    Suffices max 0 (max.getD (Rule.attemptBound s)) s := by
  cases max with
  | some k => exact Or.inl (congrArg some (Nat.zero_add k).symm)
  | none =>
    refine Or.inr ⟨rfl, ?_⟩
    rw [Option.getD_none, Rule.attemptBound]
    omega

section Repetition

variable {x : LoopM Bool} {y : ParseM Bool}
  (hx : ∀ s t, s.InBounds → t.Sound → Live sink t → EndsAs x y s t (Kept s t))

include hx

/-- A repetition goes on only after a match that read something, so there is at most one attempt for
each byte ahead and one more. -/
theorem repeatedFrom_ends (min : Nat) {max : Option Nat} {matched attempts : Nat} (tried : Nat)
    (h : s.InBounds) (ht : t.Sound) (hl : Live sink t) (hm : Suffices max matched attempts s) :
    ∃ b n s' u, result (repeatedFrom min max x matched tried) s t = some (.ok (((b, n), s'), u)) ∧
      Rule.repeatedFrom min y attempts matched s t = .ok ((b, s'), u) ∧ Filled s t b s' u ∧
      n ≤ tried + (s.remaining + 1) := by
  -- on the attempts that the bounded loop has left
  induction attempts generalizing s t matched tried with
  | zero =>
    have hmax : max = some matched := hm.resolve_right fun hn => Nat.not_lt_zero _ hn.2
    have hround : result (attempt min max x matched tried) s t =
        some (.ok ((.inl (decide (min ≤ matched), tried), s), t)) := by
      rw [attempt, hmax, Option.all_some, decide_eq_false (Nat.lt_irrefl matched)]
      rfl
    exact ⟨decide (min ≤ matched), tried, s, t, result_iterate_of_done hround, rfl,
      .refl h ht _, Nat.le_add_right _ _⟩
  | succ attempts ih =>
    have hgo : max.all (matched < ·) = true := by
      rcases hm with rfl | ⟨rfl, _⟩
      · exact decide_eq_true (by omega)
      · rfl
    rw [Rule.Parsing.repeatedFrom_succ]
    by_cases hlim : s.atErrorLimit = true
    · have hround : result (attempt min max x matched tried) s t =
          some (.ok ((.inl (false, tried), s), t)) := by
        rw [attempt, if_pos hgo]
        simp only [result_getScanner]
        rw [if_pos hlim]
        rfl
      rw [if_pos hlim]
      exact ⟨false, tried, s, t, result_iterate_of_done hround, rfl, .refl h ht false,
        Nat.le_add_right _ _⟩
    rcases hx s t h ht hl with ⟨b, s₁, u, hx₁, hy₁, hk⟩
    have hround : result (attempt min max x matched tried) s t =
        result (afterAttempt min s.cur.stop s.errors.size matched tried b) s₁ u := by
      rw [attempt, if_pos hgo]
      simp only [result_getScanner]
      rw [if_neg hlim, result_bind hx₁]
    rw [if_neg hlim, hy₁]
    cases b with
    | true =>
      rw [afterAttempt, result_getScanner] at hround
      dsimp only
      by_cases hstop : s₁.cur.stop = s.cur.stop
      · rw [if_pos hstop] at hround ⊢
        exact ⟨decide (min ≤ matched + 1), tried + 1, s₁, u, result_iterate_of_done hround, rfl,
          ⟨hk.buf_eq, hk.inBounds, fun _ => hk.le_stop rfl, hk.extended⟩, by omega⟩
      · have hlt := hk.toFilled.remaining_lt hstop
        have hm' : Suffices max (matched + 1) attempts s₁ := by
          rcases hm with rfl | ⟨rfl, hm⟩
          · exact Or.inl (by rw [Nat.add_right_comm, Nat.add_assoc])
          · exact Or.inr ⟨rfl, by omega⟩
        rw [if_neg hstop] at hround ⊢
        rcases ih (tried + 1) hk.inBounds hk.extended.sound (hl.of_extends hk.extended) hm' with
          ⟨b, n, s', v, hx', hy', hf, hn⟩
        exact ⟨b, n, s', v, (result_iterate_of_next hround).trans hx', hy', hk.toFilled.trans hf,
          by omega⟩
    | false =>
      rw [afterAttempt] at hround
      by_cases hmin : min ≤ matched
      · simp only [hmin, if_true, result_modifyScanner, decide_true] at hround ⊢
        exact ⟨true, tried + 1, _, u, result_iterate_of_done hround, rfl,
          hk.forgiven.congr rfl rfl, by omega⟩
      · simp only [hmin, if_false, decide_false] at hround ⊢
        exact ⟨false, tried + 1, s₁, u, result_iterate_of_done hround, rfl, hk.toFilled, by omega⟩

theorem repeated_ends (min : Nat) (max : Option Nat) (h : s.InBounds) (ht : t.Sound)
    (hl : Live sink t) :
    EndsAs (repeated min max x) (Rule.repeated min max y) s t (Filled s t) := by
  rcases repeatedFrom_ends hx min 0 h ht hl (suffices_attemptBound max s) with
    ⟨b, n, s', u, hx', hy', hf, _⟩
  refine ⟨b, s', u, ?_, hy', hf⟩
  rw [repeated, result_bind hx']
  rfl

end Repetition

end Parts

/-! ## The bounded parts of a rule -/

section Lift

variable {rs : List Rule}

theorem inOrder_liftScan (xs : List (ScanM Bool)) :
    Rule.inOrder (xs.map Rule.liftScan) = Rule.liftScan (Rule.inOrder xs) := by
  funext s t
  induction xs generalizing s with
  | nil => rfl
  | cons x xs ih =>
    rw [List.map_cons, Rule.Parsing.inOrder_cons, Rule.Parsing.liftScan_run,
      Rule.Parsing.liftScan_run, Rule.inOrder_cons]
    rcases x s with ⟨_ | _, s'⟩
    · rfl
    · exact ih s'

theorem firstOfFrom_liftScan (kind : Kind) (base : Nat) (xs : List (ScanM Bool)) :
    Rule.firstOfFrom kind base (xs.map Rule.liftScan) =
      Rule.liftScan (Rule.firstOfFrom kind base xs) := by
  funext s t
  induction xs generalizing s with
  | nil => rfl
  | cons x xs ih =>
    rw [List.map_cons, Rule.Parsing.firstOfFrom_cons, Rule.Parsing.liftScan_run,
      Rule.Parsing.liftScan_run, Rule.firstOfFrom_cons]
    split
    · rfl
    rcases x s with ⟨_ | _, s'⟩
    · exact ih s'
    · rfl

theorem repeatedFrom_liftScan (x : ScanM Bool) (min attempts matched : Nat) :
    Rule.repeatedFrom min (Rule.liftScan x) attempts matched =
      Rule.liftScan (Rule.repeatedFrom min x attempts matched) := by
  funext s t
  induction attempts generalizing s matched with
  | zero => rfl
  | succ attempts ih =>
    rw [Rule.Parsing.repeatedFrom_succ, Rule.Parsing.liftScan_run, Rule.Parsing.liftScan_run,
      Rule.repeatedFrom_succ]
    split
    · rfl
    rcases x s with ⟨_ | _, s'⟩
    · rfl
    · dsimp only
      split
      · rfl
      · exact ih (matched + 1) s'

theorem map_bounded_nowhere (rs : List Rule) :
    rs.map (bounded · .nowhere) = (Rule.recognizeEach rs).map Rule.liftScan := by
  rw [Rule.recognizeEach_eq_map, List.map_map]
  rfl

theorem map_bounded_under (rs : List Rule) (p : NodeId) :
    rs.map (bounded · (.under p)) = Rule.parseEachUnder rs p := by
  rw [Rule.Parsing.parseEachUnder_eq_map]
  rfl

/-- How a composite rule runs its parts with the bounds. -/
def boundedFill (r : Rule) : Sink → ParseM Bool
  | .nowhere => Rule.liftScan r.fill
  | .under p => r.fillUnder p

theorem boundedFill_seq (kind : Kind) (parts : List Rule) (sink : Sink) :
    boundedFill (.seq kind parts) sink = Rule.inOrder (parts.map (bounded · sink)) := by
  cases sink with
  | nowhere =>
    rw [map_bounded_nowhere, inOrder_liftScan]
    rfl
  | under p =>
    rw [map_bounded_under]
    rfl

theorem boundedFill_choice (kind : Kind) (alternatives : List Rule) (sink : Sink) :
    boundedFill (.choice kind alternatives) sink =
      Rule.firstOf kind (alternatives.map (bounded · sink)) := by
  cases sink with
  | nowhere =>
    funext s t
    rw [map_bounded_nowhere, Rule.Parsing.firstOf_eq, firstOfFrom_liftScan]
    rfl
  | under p =>
    rw [map_bounded_under]
    rfl

theorem boundedFill_repetition (kind : Kind) (body : Rule) (min : Nat) (max : Option Nat)
    (sink : Sink) : boundedFill (.repetition kind body min max) sink =
      Rule.repeated min max (bounded body sink) := by
  cases sink with
  | nowhere =>
    funext s t
    rw [Rule.Parsing.repeated_eq, bounded, repeatedFrom_liftScan, boundedFill, Rule.fill,
      Rule.Parsing.liftScan_run, Rule.Parsing.liftScan_run, Rule.repeated_eq]
  | under p => rfl

/-- What a composite rule does with its parts ends, if each of them does. -/
theorem fill_ends {r : Rule} (hc : r.isComposite = true) (hparts : ∀ part ∈ r.parts, Ends part)
    (sink : Sink) {s : Scanner} {t : Tree} (h : s.InBounds) (ht : t.Sound) (hl : Live sink t) :
    EndsAs (fill r sink) (boundedFill r sink) s t (Filled s t) := by
  cases r with
  | seq kind parts =>
    rw [boundedFill_seq, fill, performEach_eq_map]
    exact inOrder_ends hparts h ht hl
  | choice kind alternatives =>
    rw [boundedFill_choice, fill, performEach_eq_map]
    exact firstOf_ends hparts kind h ht hl
  | repetition kind body min max =>
    rw [boundedFill_repetition, fill]
    have hbody := hparts body (List.mem_singleton_self body)
    exact repeated_ends (hbody sink) min max h ht hl
  | notAhead | ahead | literal | charClass | builtin | custom => cases hc

end Lift

/-! ## Steps of rules -/

section Steps

variable {s : Scanner} {t u : Tree} {kind : Kind} {p : NodeId}

/-- What was added to a sound tree is taken back. -/
theorem result_rollbackTo {β : Type} {f : PUnit → LoopM β} (hu : u.Extends t) (ht : t.Sound) :
    result (rollbackTo t.size >>= f) s u = result (f ()) s t := by
  have hb : rollback u t.size = some t := by rw [rollback_eq hu.sound, hu.rollback_eq ht]
  simp only [rollbackTo, bind_assoc, result_getTree]
  rw [result_lift hb, result_setTree]

theorem attach_ne_unknownNode {id : NodeId} (hp : p < t.size) (hid : id < t.size) (x : NodeId) :
    t.attach p id ≠ .error (.unknownNode x) := by
  rw [Tree.attach_eq hp hid]
  split
  · rintro ⟨⟩
  split
  · rintro ⟨⟩
  split
  · rintro ⟨⟩
  · rintro ⟨⟩

theorem attachResult_ends {x : LoopM (Option NodeId)} {y : ParseM (Option NodeId)} (h : s.InBounds)
    (ht : t.Sound) (hp : p < t.size) (hx : EndsAs x y s t (Made s t)) :
    EndsAs (attachResult kind x p) (Rule.attachResult kind y p) s t (Kept s t) := by
  rcases hx with ⟨o, s₁, u, hx, hy, hm⟩
  have hback := hm.extended.rollback_eq ht
  rw [EndsAs, Rule.Parsing.attachResult_eq, hy]
  simp only [attachResult, result_getScanner, result_getTree, result_bind hx, Tree.checkpoint]
  cases o with
  | none =>
    simp only [result_rollbackTo hm.extended ht, hback]
    exact ⟨false, s₁, t, rfl, rfl, kept_of_failed hm.buf_eq (hm.cur_eq rfl) hm.inBounds (.refl ht)⟩
  | some id =>
    rcases hm.isNew id rfl with ⟨hid, hlt⟩
    simp only [result_getTree, result_lift (attach_eq hm.extended.sound p id)]
    cases ha : u.attach p id with
    | ok v =>
      exact ⟨true, s₁, v, rfl, rfl,
        Filled.kept ⟨hm.buf_eq, hm.inBounds, hm.le_stop, hm.extended.attach hid ha⟩⟩
    | error e =>
      -- a refusal is a failure, and nothing is refused as not in the tree
      have hfail :
          result (do rollbackTo t.size; modifyThe Scanner (·.failAt s.cur kind); return false) s₁ u =
            some (.ok ((false, s₁.failAt s.cur kind), t)) :=
        result_rollbackTo hm.extended ht
      cases e with
      | unknownNode x =>
        have hpu := Nat.lt_of_lt_of_le hp hm.extended.size_le
        exact absurd ha (attach_ne_unknownNode hpu hlt x)
      | childUnderLeaf | valueOnBranch | alreadyAttached | cycle | valueAndNodes | json =>
        simp only [hback]
        exact ⟨false, _, t, hfail, rfl, kept_of_failAt h ht hm.buf_eq kind⟩

/-! ### Composite rules -/

theorem composeScan_ends {x : LoopM Bool} {f : ScanM Bool} (h : s.InBounds) (ht : t.Sound)
    (hx : EndsAs x (Rule.liftScan f) s t (Filled s t)) :
    EndsAs (composeScan kind x) (Rule.liftScan (Rule.recognizeComposite kind f)) s t
      (Kept s t) := by
  rcases hx.eq_of_liftScan with ⟨hx, hf⟩
  rw [EndsAs, Rule.Parsing.liftScan_run, Rule.recognizeComposite]
  rcases hfs : f s with ⟨b, s₁⟩
  rw [hfs] at hx hf
  simp only [composeScan, result_getScanner, result_bind hx]
  cases b with
  | true => exact ⟨true, s₁, t, rfl, rfl, hf.kept⟩
  | false => exact ⟨false, _, t, rfl, rfl, kept_of_failComposite h ht hf.buf_eq kind _⟩

theorem composeParse_ends {x : NodeId → LoopM Bool} {y : NodeId → ParseM Bool} (h : s.InBounds)
    (ht : t.Sound) (hx : EndsAs (x t.size) (y t.size) s (t.makeRoot kind "").2
      (Filled s (t.makeRoot kind "").2)) :
    EndsAs (composeParse kind x) (Rule.parseComposite kind y) s t (Made s t) := by
  rcases hx with ⟨b, s₁, u, hx, hy, hf⟩
  have hu := hf.extended.trans ((Tree.Extends.refl ht).makeRoot kind "")
  have hback := hu.rollback_eq ht
  rw [EndsAs, Rule.Parsing.parseComposite_eq, hy]
  simp only [composeParse, result_getScanner, result_getTree, result_makeRoot, result_bind hx,
    Tree.checkpoint]
  cases b with
  | false =>
    simp only [Bool.false_eq_true, if_false, result_rollbackTo hu ht, hback]
    exact ⟨none, _, t, rfl, rfl, (kept_of_failComposite h ht hf.buf_eq kind _).made_none⟩
  | true =>
    have hlt : t.size < u.size :=
      Nat.lt_of_lt_of_le (Tree.size_makeRoot ▸ Nat.lt_succ_self _) hf.extended.size_le
    have hfilled : Filled s t true s₁ u := ⟨hf.buf_eq, hf.inBounds, hf.le_stop, hu⟩
    simp only [if_true, result_getTree, Tree.lookup_of_lt hlt, result_liftOk]
    -- without a child the node is made anew, as a leaf
    by_cases hcount : (u.node t.size).count = 0
    · rw [if_pos hcount, if_pos hcount, result_rollbackTo hu ht, hback]
      exact ⟨some t.size, s₁, _, rfl, rfl, hfilled.made_root ht kind _⟩
    · rw [if_neg hcount, if_neg hcount]
      refine ⟨some t.size, s₁, u, rfl, rfl, hfilled.kept, ?_⟩
      rintro id ⟨⟩
      exact ⟨Nat.le_refl _, hlt⟩

theorem composeUnder_ends {x : NodeId → LoopM Bool} {y : NodeId → ParseM Bool} (h : s.InBounds)
    (ht : t.Sound) (hp : p < t.size)
    (hx : ∀ id s t, s.InBounds → t.Sound → id < t.size → EndsAs (x id) (y id) s t (Filled s t)) :
    EndsAs (composeUnder kind x p) (Rule.parseCompositeUnder kind y p) s t (Kept s t) := by
  by_cases hk : kind = untyped
  · subst hk
    rcases hx p s t h ht hp with ⟨b, s₁, u, hx, hy, hf⟩
    rw [EndsAs, Rule.Parsing.parseCompositeUnder_of_untyped, hy, composeUnder,
      if_neg (not_not_intro rfl)]
    simp only [result_getScanner, result_getTree, result_bind hx, Tree.checkpoint]
    cases b with
    | true => exact ⟨true, s₁, u, rfl, rfl, hf.kept⟩
    | false =>
      simp only [Bool.false_eq_true, if_false, result_rollbackTo hf.extended ht,
        hf.extended.rollback_eq ht]
      exact ⟨false, _, t, rfl, rfl, kept_of_failComposite h ht hf.buf_eq untyped _⟩
  · rw [Rule.Parsing.parseCompositeUnder_of_typed hk, composeUnder, if_pos hk]
    have hroot := ht.makeRoot kind ""
    have hlt : t.size < (t.makeRoot kind "").2.size := Tree.size_makeRoot ▸ Nat.lt_succ_self _
    exact attachResult_ends h ht hp (composeParse_ends h ht (hx t.size s _ h hroot hlt))

/-- A composite rule ends, if each of its parts does. -/
theorem ends_of_composite {r : Rule} (hc : r.isComposite = true)
    (hparts : ∀ part ∈ r.parts, Ends part) : Ends r := by
  intro sink s t h ht hl
  rw [perform_of_composite hc]
  cases sink with
  | nowhere =>
    rw [bounded, Rule.recognize_of_composite hc]
    exact composeScan_ends h ht (fill_ends hc hparts .nowhere h ht hl)
  | under p =>
    rw [bounded, Rule.parseUnder_of_composite hc]
    refine composeUnder_ends h ht hl ?_
    intro id s t h ht hid
    exact fill_ends hc hparts (.under id) h ht hid

/-! ### Tokens and lookahead -/

theorem liftScan_ends {x : Scanner → Option (Bool × Scanner)} {f : ScanM Bool} (h : s.InBounds)
    (ht : t.Sound) (hx : x s = some (f s)) (hs : s.Settles (f s)) :
    EndsAs (liftScan x) (Rule.liftScan f) s t (Kept s t) := by
  refine ⟨(f s).1, (f s).2, t, ?_, rfl, kept_of_settles h ht hs⟩
  rw [liftScan, result_getScanner, result_lift hx]
  exact result_setScanner

theorem parseToken_ends {x : LoopM Bool} {f : ScanM Bool} (ht : t.Sound)
    (hx : EndsAs x (Rule.liftScan f) s t (Kept s t)) :
    EndsAs (parseToken kind x) (Rule.parseToken kind f) s t (Made s t) := by
  rcases hx.eq_of_liftScan with ⟨hx, hk⟩
  rw [EndsAs, Rule.Parsing.parseToken_eq]
  rcases hfs : f s with ⟨b, s₁⟩
  rw [hfs] at hx hk
  simp only [parseToken, result_getScanner, result_bind hx]
  cases b with
  | false => exact ⟨none, s₁, t, rfl, rfl, hk.made_none⟩
  | true => exact ⟨some t.size, s₁, _, rfl, rfl, hk.toFilled.made_root ht kind _⟩

theorem parseLookahead_ends {x : LoopM Bool} {f : ScanM Bool} (ht : t.Sound)
    (hx : EndsAs x (Rule.liftScan f) s t (Kept s t)) :
    EndsAs (parseLookahead kind x) (Rule.parseLookahead kind f) s t (Made s t) := by
  rcases hx.eq_of_liftScan with ⟨hx, hk⟩
  rw [EndsAs, Rule.Parsing.parseLookahead_eq]
  rcases hfs : f s with ⟨b, s₁⟩
  rw [hfs] at hx hk
  simp only [parseLookahead, result_bind hx]
  cases b with
  | false => exact ⟨none, s₁, t, rfl, rfl, hk.made_none⟩
  | true => exact ⟨some t.size, s₁, _, rfl, rfl, hk.toFilled.made_root ht kind ""⟩

/-- A rule that reads code points itself ends if its recognition does. -/
theorem ends_of_token {r : Rule} (hr : r.IsPlain) {x : Scanner → Option (Bool × Scanner)}
    (hperform : perform r = token r.kind (liftScan x))
    (hunder : r.parseUnder = Rule.parseTokenUnder r.kind r.recognize)
    (hx : ∀ s, s.InBounds → x s = some (r.recognize s)) : Ends r := by
  intro sink s t h ht hl
  have hscan := liftScan_ends h ht (hx s h) (Rule.settles_of_plain hr h)
  rw [hperform]
  cases sink with
  | nowhere => exact hscan
  | under p =>
    rw [bounded, hunder, token, Rule.parseTokenUnder]
    split
    · exact hscan
    · exact attachResult_ends h ht hl (parseToken_ends ht hscan)

/-- Lookahead makes nothing, wherever it is sent. -/
theorem ends_of_lookahead {r : Rule} {x : LoopM Bool} (hperform : perform r = fun _ => x)
    (hunder : r.parseUnder = fun _ => Rule.liftScan r.recognize)
    (hx : ∀ s t, s.InBounds → t.Sound →
      EndsAs x (Rule.liftScan r.recognize) s t (Kept s t)) : Ends r := by
  intro sink s t h ht _
  rw [hperform]
  cases sink with
  | nowhere => exact hx s t h ht
  | under p =>
    rw [bounded, hunder]
    exact hx s t h ht

theorem notAhead_ends {x : LoopM Bool} {f : ScanM Bool} (h : s.InBounds) (ht : t.Sound)
    (hx : EndsAs x (Rule.liftScan f) s t (Kept s t)) :
    EndsAs (notAhead kind x) (Rule.liftScan (Rule.recognizeNotAhead kind f)) s t (Kept s t) := by
  rcases hx.eq_of_liftScan with ⟨hx, hk⟩
  rw [EndsAs, Rule.Parsing.liftScan_run, Rule.recognizeNotAhead]
  rcases hfs : f s with ⟨b, s₁⟩
  rw [hfs] at hx hk
  simp only [notAhead, result_getScanner, result_bind hx]
  cases b with
  | true => exact ⟨false, _, t, rfl, rfl, kept_of_failAt h ht hk.buf_eq kind⟩
  | false =>
    have hf : Filled s t true (s₁.keepErrors s.errors.size) t := hk.forgiven.congr rfl rfl
    exact ⟨true, _, t, rfl, rfl, hf.kept⟩

theorem ahead_ends {x : LoopM Bool} {f : ScanM Bool} (h : s.InBounds) (ht : t.Sound)
    (hx : EndsAs x (Rule.liftScan f) s t (Kept s t)) :
    EndsAs (ahead kind x) (Rule.liftScan (Rule.recognizeAhead kind f)) s t (Kept s t) := by
  rcases hx.eq_of_liftScan with ⟨hx, hk⟩
  rw [EndsAs, Rule.Parsing.liftScan_run, Rule.recognizeAhead]
  rcases hfs : f s with ⟨b, s₁⟩
  rw [hfs] at hx hk
  simp only [ahead, result_getScanner, result_bind hx]
  cases b with
  | true =>
    have hfits : s.cur.Fits s₁.buf.size := hk.buf_eq ▸ h
    refine ⟨true, s₁.moveTo s.cur, t, rfl, rfl, ?_⟩
    rw [moveTo_of_fits hfits]
    exact Filled.kept ⟨hk.buf_eq, hfits, fun _ => Nat.le_refl _, hk.extended⟩
  | false => exact ⟨false, _, t, rfl, rfl, kept_of_failComposite h ht hk.buf_eq kind _⟩

end Steps

/-! ## All rules -/

/-- A rule without custom rules ends, one case for each kind of rule. -/
theorem ends_of_plain (r : Rule) (hr : r.IsPlain) : Ends r := by
  induction r using Rule.part_induction with
  | step r ih =>
  have hparts : ∀ part ∈ r.parts, Ends part := fun part hp => ih part hp (hr.of_part hp)
  by_cases hc : r.isComposite = true
  · exact ends_of_composite hc hparts
  cases r with
  | seq | choice | repetition => exact absurd rfl hc
  | notAhead kind body =>
    have hbody := hparts body (List.mem_singleton_self body)
    refine ends_of_lookahead (x := notAhead kind (perform body .nowhere)) ?_ ?_ ?_
    · rw [perform]
    · rw [Rule.parseUnder]
    · exact fun s t h ht => notAhead_ends h ht (hbody .nowhere s t h ht trivial)
  | ahead kind body =>
    have hbody := hparts body (List.mem_singleton_self body)
    refine ends_of_lookahead (x := ahead kind (perform body .nowhere)) ?_ ?_ ?_
    · rw [perform]
    · rw [Rule.parseUnder]
    · exact fun s t h ht => ahead_ends h ht (hbody .nowhere s t h ht trivial)
  | literal kind text =>
    refine ends_of_token hr (x := readLiteral kind text) ?_ ?_ fun s _ => readLiteral_eq kind text
    · rw [perform, Rule.kind]
    · rw [Rule.parseUnder, Rule.kind]
  | charClass kind name accepts =>
    refine ends_of_token hr (x := fun s => some (s.readOne kind accepts)) ?_ ?_ fun s _ => rfl
    · rw [perform, Rule.kind]
    · rw [Rule.parseUnder, Rule.kind]
  | builtin b =>
    refine ends_of_token hr (x := readBuiltin b) ?_ ?_ fun s h => readBuiltin_eq h b
    · rw [perform, Rule.kind]
    · rw [Rule.parseUnder, Rule.kind]
  | custom c => exact absurd hr id

/-- Parsing ends as well, with a node of its own. -/
theorem parse_ends {r : Rule} (hr : r.IsPlain) {s : Scanner} {t : Tree} (h : s.InBounds)
    (ht : t.Sound) : EndsAs (parse r) r.parse s t (Made s t) := by
  have hscan : EndsAs (perform r .nowhere) (Rule.liftScan r.recognize) s t (Kept s t) :=
    ends_of_plain r hr .nowhere s t h ht trivial
  by_cases hc : r.isComposite = true
  · have hparts : ∀ part ∈ r.parts, Ends part := fun part hp => ends_of_plain part (hr.of_part hp)
    have hroot := ht.makeRoot r.kind ""
    have hlt : t.size < (t.makeRoot r.kind "").2.size := Tree.size_makeRoot ▸ Nat.lt_succ_self _
    rw [parse_of_composite hc, Rule.parse_of_composite hc]
    exact composeParse_ends h ht (fill_ends hc hparts (.under t.size) h hroot hlt)
  cases r with
  | seq | choice | repetition => exact absurd rfl hc
  | notAhead | ahead => exact parseLookahead_ends ht hscan
  | literal | charClass | builtin => exact parseToken_ends ht hscan
  | custom c => exact absurd hr id

/-- Without any bound on the loops, recognising a rule without custom rules, parsing it and putting
it under a node end, and with the results that they have with the bounds. Each run of a repetition
with the rule as its body ends too, wherever it begins and whatever its minimum and maximum; it
tries the body at most once for each byte ahead and once more. -/
theorem loops_end {r : Rule} (hr : r.IsPlain) {s : Scanner} (h : s.InBounds) {t : Tree}
    (ht : t.WellFormed) :
    result (perform r .nowhere) s t = some (.ok (r.recognize s, t)) ∧
      (∃ out, result (parse r) s t = some (.ok out) ∧ r.parse s t = .ok out) ∧
      (∀ p < t.size, ∃ out, result (perform r (.under p)) s t = some (.ok out) ∧
        r.parseUnder p s t = .ok out) ∧
      ∀ sink, Live sink t → ∀ min max, ∃ b tried s' u,
        result (repeatedFrom min max (perform r sink) 0 0) s t =
          some (.ok (((b, tried), s'), u)) ∧
        Rule.repeated min max (bounded r sink) s t = .ok ((b, s'), u) ∧
        tried ≤ (s.buf.size - s.cur.stop) + 1 := by
  have hends := ends_of_plain r hr
  refine ⟨(hends .nowhere s t h ht.sound trivial).eq_of_liftScan.1, ?_, ?_, ?_⟩
  · rcases parse_ends hr h ht.sound with ⟨o, s', u, hx, hy, _⟩
    exact ⟨_, hx, hy⟩
  · intro p hp
    rcases hends (.under p) s t h ht.sound hp with ⟨b, s', u, hx, hy, _⟩
    exact ⟨_, hx, hy⟩
  · intro sink hl min max
    rcases repeatedFrom_ends (hends sink) min 0 h ht.sound hl (suffices_attemptBound max s) with
      ⟨b, tried, s', u, hx, hy, _, hn⟩
    rw [Nat.zero_add] at hn
    exact ⟨b, tried, s', u, hx, hy, hn⟩

/-- A letter that may be missing, any number of times, before a letter that stops it: the last of
the attempts reads nothing. -/
theorem loops_end_empty :
    let r := Rule.zeroOrMore 1 (Rule.optional 0 (.literal 2 "x"))
    let s := Scanner.ofText "xxb"
    let t := (Tree.Call.makeRoot untyped "").run {}
    r.IsPlain ∧ s.InBounds ∧ t.WellFormed ∧
      (∃ s', result (perform r .nowhere) s t = some (.ok ((true, s'), t)) ∧ s'.cur.stop = 2) ∧
      (∃ out, result (perform r (.under 0)) s t = some (.ok out)) ∧
      ∃ b tried s' u, result (repeatedFrom 0 none (perform r .nowhere) 0 0) s t =
        some (.ok (((b, tried), s'), u)) ∧ tried ≤ 4 := by
  intro r s t
  have hr : r.IsPlain := trivial
  have h : s.InBounds := ⟨Nat.le_refl 0, Nat.zero_le _⟩
  have ht : t.WellFormed :=
    (Tree.Reachable.empty.call (.makeRoot untyped "") (by decide)).sound.wellFormed
  rcases loops_end hr h ht with ⟨hscan, _, hunder, hrep⟩
  have hrun : (r.recognize s).1 = true ∧ (r.recognize s).2.cur.stop = 2 := by decide +kernel
  have hout : r.recognize s = (true, (r.recognize s).2) := Prod.ext hrun.1 rfl
  rcases hunder 0 (by decide) with ⟨out, hout', _⟩
  rcases hrep .nowhere trivial 0 none with ⟨b, tried, s', u, htried, _, hle⟩
  exact ⟨hr, h, ht, ⟨_, hout ▸ hscan, hrun.2⟩, ⟨out, hout'⟩, b, tried, s', u, htried, hle⟩

end PegKit.Unbounded
