import PegKit.Proofs.Rule.Contract

/-! # Sessions

Runs of operations on a scanner and its clones, with bookmarks handed out on the way.

* `Scanner.Call` lists the operations on one scanner, and `Session.Step` adds what a session can do
  besides: hand out a bookmark and clone a scanner.
* `Call.run_inBounds` and `Call.run_inPlace` are the steps, for any bookmarks and for bookmarks that
  were handed out over the same buffer.
* `Session.run_cursors`: after any run every cursor lies in its buffer, and if no bookmark outlived
  the buffer that it was handed out over, every cursor is on a code point that ends a text.
-/

namespace PegKit

/-! ## Cursors that reading leads to -/

/-- The cursor is where reading leads from the beginning of the buffer. -/
def Cursor.InPlace (buf : Array UInt8) (m : Cursor) : Prop :=
  ∃ cs, Utf8.encode cs <+: buf.toList ∧ m = Cursor.origin.across cs

/-- The cursor is before everything, or the buffer up to its end is a text whose last code point it
is on, from the first byte to the last. -/
def Cursor.OnCodePoint (buf : Array UInt8) (m : Cursor) : Prop :=
  m = .origin ∨ ∃ cs, buf.toList.take m.stop = Utf8.encode (cs ++ [m.rune]) ∧
    m.start = (Utf8.encode cs).length ∧
    (buf.extract m.start m.stop).toList = String.utf8EncodeChar m.rune

namespace Cursor

variable {buf : Array UInt8} {m : Cursor}

theorem InPlace.fits (h : m.InPlace buf) : m.Fits buf.size := by
  rcases h with ⟨cs, hcs, rfl⟩
  refine ⟨start_le_stop_across (Nat.le_refl _) cs, ?_⟩
  rw [stop_across]
  simpa [origin] using hcs.length_le

theorem inPlace_origin (buf : Array UInt8) : origin.InPlace buf :=
  ⟨[], List.nil_prefix, rfl⟩

/-- Reading leads nowhere or onto the last of the code points read. -/
theorem InPlace.eq_origin_or_next (h : m.InPlace buf) : m = .origin ∨
    ∃ cs c, Utf8.encode (cs ++ [c]) <+: buf.toList ∧ m = (origin.across cs).next c := by
  rcases h with ⟨cs, hcs, rfl⟩
  rcases List.eq_nil_or_concat cs with rfl | ⟨ds, c, rfl⟩
  · exact Or.inl rfl
  · rw [List.concat_eq_append] at hcs ⊢
    exact Or.inr ⟨ds, c, hcs, across_append _ _ _⟩

/-- Where reading leads, there is a code point to be on, or nothing has been read. -/
theorem InPlace.onCodePoint (h : m.InPlace buf) : m.OnCodePoint buf := by
  rcases h.eq_origin_or_next with rfl | ⟨cs, c, hcs, rfl⟩
  · exact Or.inl rfl
  · have hlast : (origin.across cs).next c =
        ⟨c, (Utf8.encode cs).length, (Utf8.encode (cs ++ [c])).length⟩ := by
      rw [next, stop_across, Utf8.encode_append, Utf8.encode_singleton, List.length_append]
      simp [origin]
    rw [hlast]
    have htake := List.prefix_iff_eq_take.mp hcs
    refine Or.inr ⟨cs, htake.symm, rfl, ?_⟩
    -- the last code point is what the text before it leaves of the bytes read
    rw [Array.toList_extract, List.extract_eq_take_drop, ← List.drop_take, ← htake,
      Utf8.encode_append, List.drop_left, Utf8.encode_singleton]

/-- Reading from where reading led leads on. -/
theorem InPlace.across {s : Scanner} {cs : List Char} (h : s.cur.InPlace s.buf)
    (reads : Utf8.encode cs <+: s.rest) : (s.cur.across cs).InPlace s.buf := by
  rcases h with ⟨ds, ⟨bs, hbs⟩, hcur⟩
  have hrest : s.rest = bs := by
    rw [Scanner.rest, hcur, ← hbs, stop_across]
    simp [origin]
  refine ⟨ds ++ cs, ?_, ?_⟩
  · rw [Utf8.encode_append, ← hbs]
    exact (List.prefix_append_right_inj _).mpr (hrest ▸ reads)
  · rw [across_append, ← hcur]

end Cursor

namespace Scanner

/-! ## Operations on one scanner -/

/-- An operation on a scanner with its arguments. -/
inductive Call where
  | advance
  | moveTo (m : Cursor)
  | failAt (m : Cursor) (kind : Kind)
  | load (buf : Array UInt8)
  | pushError (e : Expectation)
  | popError
  | keepErrors (n : Nat)
  | expect (kind : Kind)
  | setMaxErrors (n : Option Nat)
  | setPreviewLen (n : Nat)
  | setTrace (on : Bool)
  | noteState
  | recognize (r : Rule)

namespace Call

/-- What a call leaves. -/
def run : Call → Scanner → Scanner
  | advance, s => s.advance.2
  | moveTo m, s => s.moveTo m
  | failAt m kind, s => s.failAt m kind
  | load buf, s => s.load buf
  | pushError e, s => s.pushError e
  | popError, s => s.popError.2
  | keepErrors n, s => s.keepErrors n
  | expect kind, s => s.expect kind
  | setMaxErrors n, s => s.setMaxErrors n
  | setPreviewLen n, s => s.setPreviewLen n
  | setTrace on, s => s.setTrace on
  | noteState, s => s.noteState .debug
  | recognize r, s => (r.recognize s).2

/-- The bookmarks that a call goes to. -/
def bookmarks : Call → List Cursor
  | moveTo m => [m]
  | failAt m _ => [m]
  | _ => []

/-- The buffer that a call brings in. -/
def brings? : Call → Option (Array UInt8)
  | load buf => some buf
  | _ => none

/-- The call recognises no custom rule. -/
def IsPlain : Call → Prop
  | recognize r => r.IsPlain
  | _ => True

variable {c : Call} {s : Scanner}

/-- All that a call does to the buffer and to the cursor: it brings a buffer in and starts over, or
reads a text that comes next, the empty one mostly, or goes to a bookmark if that fits. -/
theorem run_cases (hc : c.IsPlain) (h : s.InBounds) :
    (∃ buf, c.brings? = some buf ∧ (c.run s).buf = buf ∧ (c.run s).cur = .origin) ∨
    c.brings? = none ∧ (c.run s).buf = s.buf ∧
      ((∃ cs, Utf8.encode cs <+: s.rest ∧ (c.run s).cur = s.cur.across cs) ∨
        ∃ m ∈ c.bookmarks, (c.run s).cur = if m.Fits s.buf.size then m else s.finalCursor) := by
  have hmove : ∀ m, (s.moveTo m).buf = s.buf ∧
      (s.moveTo m).cur = if m.Fits s.buf.size then m else s.finalCursor := by
    intro m
    unfold Scanner.moveTo
    split
    · exact ⟨rfl, rfl⟩
    · exact ⟨rfl, rfl⟩
  cases c with
  | advance =>
    rcases advance_cases s with ⟨d, log, hd, ha⟩ | ⟨_, ha⟩
    · refine Or.inr ⟨rfl, congrArg (·.2.buf) ha, Or.inl ⟨[d], ?_, congrArg (·.2.cur) ha⟩⟩
      rw [Utf8.encode_singleton]
      exact hd
    · exact Or.inr ⟨rfl, congrArg (·.2.buf) ha, Or.inl ⟨[], List.nil_prefix,
        congrArg (·.2.cur) ha⟩⟩
  | moveTo m =>
    exact Or.inr ⟨rfl, (hmove m).1, Or.inr ⟨m, List.mem_cons_self, (hmove m).2⟩⟩
  | failAt m kind =>
    exact Or.inr ⟨rfl, (hmove m).1, Or.inr ⟨m, List.mem_cons_self, (hmove m).2⟩⟩
  | load buf => exact Or.inl ⟨buf, rfl, rfl, rfl⟩
  | recognize r =>
    have hs := Rule.settles_of_plain hc h
    have hrun : (recognize r).run s = (r.recognize s).2 := rfl
    rw [hrun]
    generalize r.recognize s = out at hs
    cases hs with
    | @matched cs log reads means => exact Or.inr ⟨rfl, rfl, Or.inl ⟨cs, reads, rfl⟩⟩
    | failed means =>
      rcases means with ⟨rfl, _⟩
      exact Or.inr ⟨rfl, rfl, Or.inl ⟨[], List.nil_prefix, rfl⟩⟩
  | _ => exact Or.inr ⟨rfl, rfl, Or.inl ⟨[], List.nil_prefix, rfl⟩⟩

/-- A call keeps the cursor in the buffer, whatever bookmark it goes to. -/
theorem run_inBounds (hc : c.IsPlain) (h : s.InBounds) : (c.run s).InBounds := by
  unfold InBounds
  rcases run_cases hc h with ⟨buf, _, hbuf, hcur⟩ | ⟨_, hbuf, hcur⟩
  · rw [hbuf, hcur]
    exact ⟨Nat.le_refl _, Nat.zero_le _⟩
  · rw [hbuf]
    rcases hcur with ⟨cs, reads, hcur⟩ | ⟨m, _, hcur⟩
    · have hread : (s.readOver cs s.log).InBounds := h.readOver reads
      rw [hcur]
      exact hread
    · rw [hcur]
      split
      · next hm => exact hm
      · exact finalCursor_fits s

/-- Where bookmarks are ones that reading leads to, so is the cursor that a call leaves. -/
theorem run_inPlace (hc : c.IsPlain) (h : s.cur.InPlace s.buf)
    (hm : ∀ m ∈ c.bookmarks, m.InPlace s.buf) : (c.run s).cur.InPlace (c.run s).buf := by
  rcases run_cases hc h.fits with ⟨buf, _, hbuf, hcur⟩ | ⟨_, hbuf, hcur⟩
  · rw [hcur]
    exact Cursor.inPlace_origin _
  · rw [hbuf]
    rcases hcur with ⟨cs, reads, hcur⟩ | ⟨m, hmem, hcur⟩
    · rw [hcur]
      exact h.across reads
    · -- such a bookmark fits, so nothing stands in for it
      rw [hcur, if_pos (hm m hmem).fits]
      exact hm m hmem

end Call

/-! ## Sessions -/

/-- A scanner of a session. -/
structure Member where
  scanner : Scanner
  /-- Which buffer of the session it reads, counted by when they came in. -/
  edition : Nat := 0

/-- Scanners that are clones of one, and the bookmarks that they have handed out. -/
structure Session where
  members : List Member
  /-- Number of buffers that have come in since the first one. -/
  loads : Nat := 0
  /-- Each bookmark with the edition of the buffer that it was handed out over. -/
  bookmarks : List (Nat × Cursor) := []

namespace Session

/-- What can happen in a session. -/
inductive Step where
  /-- A call of the member `i`. -/
  | call (i : Nat) (c : Call)
  /-- The member `i` hands out a bookmark. -/
  | mark (i : Nat)
  /-- The member `i` is cloned. -/
  | clone (i : Nat)

/-- A session of one scanner. -/
def start (s : Scanner) : Session where
  members := [{ scanner := s }]

/-- What a step leaves. A step of a member that the session does not have does nothing. -/
def step (σ : Session) : Step → Session
  | .call i c =>
    match σ.members[i]?, c.brings? with
    | none, _ => σ
    | some m, none => { σ with members := σ.members.set i { m with scanner := c.run m.scanner } }
    | some m, some _ =>
      { σ with
        members := σ.members.set i { scanner := c.run m.scanner, edition := σ.loads + 1 }
        loads := σ.loads + 1 }
  | .mark i =>
    match σ.members[i]? with
    | none => σ
    | some m => { σ with bookmarks := (m.edition, m.scanner.cur) :: σ.bookmarks }
  | .clone i =>
    match σ.members[i]? with
    | none => σ
    | some m => { σ with members := σ.members ++ [m] }

/-- What steps leave, one after the other. -/
def run (σ : Session) (steps : List Step) : Session :=
  steps.foldl step σ

/-- The step recognises no custom rule. -/
def Step.IsPlain : Step → Prop
  | .call _ c => c.IsPlain
  | _ => True

/-- Every bookmark that the step goes to was handed out over the buffer that it is used on. -/
def Current (σ : Session) : Step → Prop
  | .call i c => ∀ m ∈ σ.members[i]?, ∀ b ∈ c.bookmarks, (m.edition, b) ∈ σ.bookmarks
  | _ => True

instance (σ : Session) : (e : Step) → Decidable (σ.Current e)
  | .call i c =>
    inferInstanceAs (Decidable (∀ m ∈ σ.members[i]?, ∀ b ∈ c.bookmarks,
      (m.edition, b) ∈ σ.bookmarks))
  | .mark _ => inferInstanceAs (Decidable True)
  | .clone _ => inferInstanceAs (Decidable True)

/-- So it is for each of the steps at its time. -/
def AllCurrent (σ : Session) : List Step → Prop
  | [] => True
  | e :: es => σ.Current e ∧ (σ.step e).AllCurrent es

instance decideAllCurrent (σ : Session) : (es : List Step) → Decidable (σ.AllCurrent es)
  | [] => inferInstanceAs (Decidable True)
  | e :: es =>
    have := decideAllCurrent (σ.step e) es
    inferInstanceAs (Decidable (_ ∧ _))

end Session

/-- A scanner as it is constructed. -/
inductive Constructed : Scanner → Prop
  | new (options : Options) : Constructed (new options)
  | ofBytes (buf : Array UInt8) : Constructed (ofBytes buf)
  | ofText (text : String) : Constructed (ofText text)

theorem Constructed.cur_eq {s : Scanner} (h : Constructed s) : s.cur = .origin := by
  cases h with
  | new options => rfl
  | ofBytes buf => rfl
  | ofText text => rfl

namespace Session

variable {σ : Session} {e : Step} {es : List Step}

/-- All that a step does to a session. -/
theorem step_cases (σ : Session) (e : Step) : σ.step e = σ ∨
    (∃ i c m, e = .call i c ∧ σ.members[i]? = some m ∧ c.brings? = none ∧
      σ.step e = { σ with members := σ.members.set i { m with scanner := c.run m.scanner } }) ∨
    (∃ i c m buf, e = .call i c ∧ σ.members[i]? = some m ∧ c.brings? = some buf ∧
      σ.step e = { σ with
        members := σ.members.set i { scanner := c.run m.scanner, edition := σ.loads + 1 }
        loads := σ.loads + 1 }) ∨
    (∃ m ∈ σ.members,
      σ.step e = { σ with bookmarks := (m.edition, m.scanner.cur) :: σ.bookmarks }) ∨
    ∃ m ∈ σ.members, σ.step e = { σ with members := σ.members ++ [m] } := by
  cases e with
  | call i c =>
    cases hi : σ.members[i]? with
    | none => exact Or.inl (by simp only [step, hi])
    | some m =>
      cases hb : c.brings? with
      | none => exact Or.inr (Or.inl ⟨i, c, m, rfl, hi, hb, by simp only [step, hi, hb]⟩)
      | some buf =>
        exact Or.inr (Or.inr (Or.inl ⟨i, c, m, buf, rfl, hi, hb, by simp only [step, hi, hb]⟩))
  | mark i =>
    cases hi : σ.members[i]? with
    | none => exact Or.inl (by simp only [step, hi])
    | some m =>
      have hmem := List.mem_of_getElem? hi
      exact Or.inr (Or.inr (Or.inr (Or.inl ⟨m, hmem, by simp only [step, hi]⟩)))
  | clone i =>
    cases hi : σ.members[i]? with
    | none => exact Or.inl (by simp only [step, hi])
    | some m =>
      have hmem := List.mem_of_getElem? hi
      exact Or.inr (Or.inr (Or.inr (Or.inr ⟨m, hmem, by simp only [step, hi]⟩)))

/-! ## Cursors in their buffers -/

/-- The cursor of every member lies in its buffer. -/
def InBounds (σ : Session) : Prop :=
  ∀ m ∈ σ.members, m.scanner.InBounds

theorem step_inBounds (he : e.IsPlain) (h : σ.InBounds) : (σ.step e).InBounds := by
  intro m' hm'
  rcases step_cases σ e with hs | ⟨i, c, m, rfl, hi, _, hs⟩ | ⟨i, c, m, _, rfl, hi, _, hs⟩ |
    ⟨m, _, hs⟩ | ⟨m, hm, hs⟩
  · rw [hs] at hm'
    exact h m' hm'
  · rw [hs] at hm'
    rcases List.mem_or_eq_of_mem_set hm' with hm' | rfl
    · exact h m' hm'
    · exact Call.run_inBounds he (h m (List.mem_of_getElem? hi))
  · rw [hs] at hm'
    rcases List.mem_or_eq_of_mem_set hm' with hm' | rfl
    · exact h m' hm'
    · exact Call.run_inBounds he (h m (List.mem_of_getElem? hi))
  · rw [hs] at hm'
    exact h m' hm'
  · rw [hs] at hm'
    rcases List.mem_append.mp hm' with hm' | hm'
    · exact h m' hm'
    · exact List.mem_singleton.mp hm' ▸ h m hm

theorem run_inBounds (hes : ∀ e ∈ es, e.IsPlain) (h : σ.InBounds) : (σ.run es).InBounds := by
  induction es generalizing σ with
  | nil => exact h
  | cons e es ih =>
    exact ih (fun e' he' => hes e' (List.mem_cons_of_mem e he'))
      (step_inBounds (hes e List.mem_cons_self) h)

/-! ## Cursors on code points -/

/-- The members of each edition read one buffer, and their cursors and the bookmarks handed out over
it are ones that reading it leads to. -/
structure Settled (σ : Session) (buffers : Nat → Array UInt8) : Prop where
  members : ∀ m ∈ σ.members, m.edition ≤ σ.loads ∧ m.scanner.buf = buffers m.edition ∧
    m.scanner.cur.InPlace (buffers m.edition)
  bookmarks : ∀ b ∈ σ.bookmarks, b.1 ≤ σ.loads ∧ b.2.InPlace (buffers b.1)

/-- A member that is called with current bookmarks. -/
theorem Settled.run_inPlace {buffers : Nat → Array UInt8} {i : Nat} {c : Call} {m : Member}
    (h : σ.Settled buffers) (hc : c.IsPlain) (hi : σ.members[i]? = some m)
    (hcur : σ.Current (.call i c)) :
    (c.run m.scanner).cur.InPlace (c.run m.scanner).buf ∧
      (c.run m.scanner).buf = c.brings?.getD m.scanner.buf := by
  rcases h.members m (List.mem_of_getElem? hi) with ⟨_, hbuf, hm⟩
  rw [← hbuf] at hm
  constructor
  · refine Call.run_inPlace hc hm ?_
    intro b hb
    have hin := hcur m hi b hb
    rw [hbuf]
    exact (h.bookmarks _ hin).2
  · rcases Call.run_cases hc hm.fits with ⟨buf, hb, hrun, _⟩ | ⟨hb, hrun, _⟩
    · rw [hrun, hb]
      rfl
    · rw [hrun, hb]
      rfl

/-- A buffer that comes in gets an edition of its own. -/
theorem Settled.load {buffers : Nat → Array UInt8} {i : Nat} {s : Scanner}
    (h : σ.Settled buffers) (hs : s.cur.InPlace s.buf) :
    Settled { σ with
        members := σ.members.set i { scanner := s, edition := σ.loads + 1 }
        loads := σ.loads + 1 }
      fun n => if n = σ.loads + 1 then s.buf else buffers n := by
  have hold : ∀ n ≤ σ.loads, (if n = σ.loads + 1 then s.buf else buffers n) = buffers n :=
    fun n hn => if_neg (Nat.ne_of_lt (Nat.lt_succ_of_le hn))
  constructor
  case members =>
    intro m' hm'
    rcases List.mem_or_eq_of_mem_set hm' with hm' | rfl
    · rcases h.members m' hm' with ⟨hle, hbuf, hm⟩
      rw [hold _ hle]
      exact ⟨Nat.le_succ_of_le hle, hbuf, hm⟩
    · rw [if_pos rfl]
      exact ⟨Nat.le_refl _, rfl, hs⟩
  case bookmarks =>
    intro b hb
    rcases h.bookmarks b hb with ⟨hle, hm⟩
    rw [hold _ hle]
    exact ⟨Nat.le_succ_of_le hle, hm⟩

theorem step_settled {buffers : Nat → Array UInt8} (he : e.IsPlain) (hcur : σ.Current e)
    (h : σ.Settled buffers) : ∃ buffers, (σ.step e).Settled buffers := by
  rcases step_cases σ e with hs | ⟨i, c, m, rfl, hi, hb, hs⟩ | ⟨i, c, m, buf, rfl, hi, hb, hs⟩ |
    ⟨m, hm, hs⟩ | ⟨m, hm, hs⟩
  · refine ⟨buffers, ?_⟩
    rw [hs]
    exact h
  · rcases h.run_inPlace he hi hcur with ⟨hin, hbuf⟩
    rw [hb] at hbuf
    rcases h.members m (List.mem_of_getElem? hi) with ⟨hle, hold, _⟩
    refine ⟨buffers, ?_⟩
    rw [hs]
    refine ⟨?_, h.bookmarks⟩
    intro m' hm'
    rcases List.mem_or_eq_of_mem_set hm' with hm' | rfl
    · exact h.members m' hm'
    · exact ⟨hle, hbuf.trans hold, (hbuf.trans hold) ▸ hin⟩
  · rw [hs]
    exact ⟨_, h.load (h.run_inPlace he hi hcur).1⟩
  · rcases h.members m hm with ⟨hle, _, hin⟩
    refine ⟨buffers, ?_⟩
    rw [hs]
    refine ⟨h.members, ?_⟩
    intro b hb
    rcases List.mem_cons.mp hb with rfl | hb
    · exact ⟨hle, hin⟩
    · exact h.bookmarks b hb
  · refine ⟨buffers, ?_⟩
    rw [hs]
    refine ⟨?_, h.bookmarks⟩
    intro m' hm'
    rcases List.mem_append.mp hm' with hm' | hm'
    · exact h.members m' hm'
    · exact List.mem_singleton.mp hm' ▸ h.members m hm

theorem run_settled {buffers : Nat → Array UInt8} (hes : ∀ e ∈ es, e.IsPlain)
    (hcur : σ.AllCurrent es) (h : σ.Settled buffers) : ∃ buffers, (σ.run es).Settled buffers := by
  induction es generalizing σ buffers with
  | nil => exact ⟨buffers, h⟩
  | cons e es ih =>
    rcases step_settled (hes e List.mem_cons_self) hcur.1 h with ⟨buffers', h'⟩
    exact ih (fun e' he' => hes e' (List.mem_cons_of_mem e he')) hcur.2 h'

theorem settled_start {s : Scanner} (hs : Constructed s) : (start s).Settled fun _ => s.buf := by
  refine ⟨?_, nofun⟩
  intro m hm
  rw [List.mem_singleton.mp hm]
  exact ⟨Nat.le_refl _, rfl, hs.cur_eq ▸ Cursor.inPlace_origin _⟩

/-- Whatever happens in a session, with bookmarks made up or out of date, every cursor lies in its
buffer. If each bookmark was handed out over the buffer that it is used on, since that came in, then
every cursor is before everything, or on the code point that the bytes up to it end with, and these
are a text. -/
theorem run_cursors {s : Scanner} (hs : Constructed s) (hes : ∀ e ∈ es, e.IsPlain) :
    (∀ m ∈ ((start s).run es).members, m.scanner.InBounds) ∧
    ((start s).AllCurrent es →
      ∀ m ∈ ((start s).run es).members, m.scanner.cur.OnCodePoint m.scanner.buf) := by
  have hstart := settled_start hs
  constructor
  · refine run_inBounds hes ?_
    intro m hm
    rcases hstart.members m hm with ⟨_, hbuf, hin⟩
    unfold Scanner.InBounds
    rw [hbuf]
    exact hin.fits
  · intro hcur m hm
    rcases run_settled hes hcur hstart with ⟨buffers, h⟩
    rcases h.members m hm with ⟨_, hbuf, hin⟩
    rw [hbuf]
    exact hin.onCodePoint

/-- A clone gets another buffer and goes to a bookmark that is made up; the scanner it was cloned
from goes back to a bookmark that the clone handed out before that. -/
theorem run_cursors_clone :
    let es : List Step := [.call 0 .advance, .clone 0, .call 1 (.recognize (.literal 1 "é")),
      .mark 1, .call 1 (.load #[0x78, 0xFF]), .call 1 .advance, .call 0 (.moveTo ⟨'é', 1, 3⟩)]
    let σ := (start (ofText "aéb")).run es
    let out := (σ.step (.call 1 (.moveTo ⟨'b', 7, 9⟩))).members
    (∀ e ∈ es, e.IsPlain) ∧ (start (ofText "aéb")).AllCurrent es ∧
      σ.members.map (·.scanner.cur) = [⟨'é', 1, 3⟩, ⟨'x', 0, 1⟩] ∧
      (∀ m ∈ σ.members, m.scanner.cur.OnCodePoint m.scanner.buf) ∧
      out.map (·.scanner.cur) = [⟨'é', 1, 3⟩, .origin] ∧ ∀ m ∈ out, m.scanner.InBounds := by
  intro es σ out
  have hes : ∀ e ∈ es ++ [.call 1 (.moveTo ⟨'b', 7, 9⟩)], e.IsPlain := by
    simp [es, Step.IsPlain, Call.IsPlain, Rule.IsPlain]
  have hes' : ∀ e ∈ es, e.IsPlain := fun e he => hes e (List.mem_append_left _ he)
  have hcur : (start (ofText "aéb")).AllCurrent es := by decide +kernel
  have hout : out = ((start (ofText "aéb")).run
      (es ++ [.call 1 (.moveTo ⟨'b', 7, 9⟩)])).members := by
    simp only [run, List.foldl_append]
    rfl
  refine ⟨hes', hcur, by decide +kernel, (run_cursors (.ofText _) hes').2 hcur, by decide +kernel,
    ?_⟩
  rw [hout]
  exact (run_cursors (.ofText _) hes).1

end Session
end Scanner
end PegKit
