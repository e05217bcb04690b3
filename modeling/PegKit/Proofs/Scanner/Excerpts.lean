import PegKit.Proofs.Scanner.Session

/-! # Text between two cursors

Whether it matters which of two cursors is the scanner's and which the bookmark.

* `Cursor.InPlace.eq_of_start_eq`: cursors that reading leads to begin at different places, but for
  the one before everything and the one on the first code point.
* `Scanner.textBetween_swap_iff`: it matters for these two, where the range goes up to the end of
  the later one, and for no others.
* `Scanner.consumedSince_readOver`: the text since a bookmark is the text that was read since.
* `Session.run_textBetween_swap_iff`: which way round matters for the bookmarks that a session hands
  out.
-/

namespace PegKit

/-! ## Cursors that begin at one place -/

namespace Cursor

variable {buf : Array UInt8} {m a b : Cursor}

/-- The cursor `a` is before everything and `b` is on the first code point. -/
def FrontPair (a b : Cursor) : Prop :=
  a = .origin ∧ b ≠ .origin ∧ b.start = 0

theorem FrontPair.start_eq (h : a.FrontPair b) : a.start = b.start := by
  rcases h with ⟨rfl, _, hb⟩
  exact hb.symm

theorem InPlace.start_lt_stop (h : m.InPlace buf) (hne : m ≠ .origin) : m.start < m.stop := by
  rcases h.eq_origin_or_next with rfl | ⟨cs, c, _, rfl⟩
  · exact absurd rfl hne
  · exact Nat.lt_add_of_pos_right (Utf8.length_utf8EncodeChar_pos c)

/-- The bytes up to a place are one text at most, and one code point at most begins there. -/
theorem InPlace.eq_of_start_eq (ha : a.InPlace buf) (hb : b.InPlace buf)
    (hs : a.start = b.start) : a = b ∨ a.FrontPair b ∨ b.FrontPair a := by
  by_cases hab : a = b
  · exact Or.inl hab
  rcases ha.eq_origin_or_next with rfl | ⟨cs, c, hcs, rfl⟩
  · exact Or.inr (Or.inl ⟨rfl, Ne.symm hab, hs.symm⟩)
  rcases hb.eq_origin_or_next with rfl | ⟨ds, d, hds, rfl⟩
  · exact Or.inr (Or.inr ⟨rfl, hab, hs⟩)
  -- what comes before the two code points takes equally many bytes
  have hlen : (Utf8.encode cs).length = (Utf8.encode ds).length := by
    have hstop : (origin.across cs).stop = (origin.across ds).stop := hs
    rw [stop_across, stop_across] at hstop
    exact Nat.add_left_cancel hstop
  rw [Utf8.encode_append] at hcs hds
  have hcd : cs = ds := Utf8.encode_inj ((List.prefix_append _ _).trans hcs)
    ((List.prefix_append _ _).trans hds) hlen
  subst hcd
  rcases hcs with ⟨rest, hrest⟩
  rw [List.append_assoc] at hrest
  rw [← hrest, List.prefix_append_right_inj, Utf8.encode_singleton, Utf8.encode_singleton] at hds
  have hc : c = d := Utf8.char_eq_of_prefix_both (List.prefix_append _ _) hds
  exact absurd (hc ▸ rfl) hab

end Cursor

namespace Scanner

variable {buf : Array UInt8} {a b : Cursor}

/-! ## Text between edges -/

/-- The text from an edge of one cursor up to an edge of another. -/
def spanText (buf : Array UInt8) (first last : Cursor) (x y : Edge) : String :=
  let lo := min (x.of first) buf.size
  let hi := min (y.of last) buf.size
  if lo ≥ hi then "" else Utf8.lossy (buf.extract lo hi).toList

/-- Only where the two begin decides which is the earlier. -/
theorem textBetween_eq (s : Scanner) (m : Cursor) (x y : Edge) : s.textBetween m x y =
    if m.start ≤ s.cur.start then spanText s.buf m s.cur x y
    else spanText s.buf s.cur m x y := by
  unfold textBetween
  by_cases h : m.start ≤ s.cur.start
  · rw [if_pos h, if_pos h]
    rfl
  · rw [if_neg h, if_neg h]
    rfl

/-- Bytes are shown by at least one code point. -/
theorem lossy_ne_empty {bs : List UInt8} (h : bs ≠ []) : Utf8.lossy bs ≠ "" := by
  cases bs with
  | nil => exact absurd rfl h
  | cons b rest =>
    intro he
    have hnil := congrArg String.toList he
    rw [Utf8.lossy, String.toList_ofList, Utf8.lossyFrom] at hnil
    cases hnil

/-- From the first code point to before it there is nothing, and the other way round there is the
code point, if it is taken. -/
theorem spanText_front (hb : b.InPlace buf) (h : a.FrontPair b) (x y : Edge) :
    spanText buf b a x y = "" ∧ (spanText buf a b x y = "" ↔ y = .start) := by
  rcases h with ⟨rfl, hne, hstart⟩
  have hzero : ∀ e : Edge, e.of Cursor.origin = 0 := by
    intro e
    cases e with
    | start => rfl
    | stop => rfl
  constructor
  · rw [spanText, hzero, Nat.zero_min]
    exact if_pos (Nat.zero_le _)
  · rw [spanText, hzero, Nat.zero_min]
    cases y with
    | start =>
      have hof : Edge.start.of b = 0 := hstart
      rw [hof, Nat.zero_min]
      exact iff_of_true (if_pos (Nat.le_refl _)) rfl
    | stop =>
      have hpos : 0 < b.stop := Nat.lt_of_le_of_lt (Nat.zero_le _) (hb.start_lt_stop hne)
      have hle : b.stop ≤ buf.size := hb.fits.2
      have hof : Edge.stop.of b = b.stop := rfl
      rw [hof, Nat.min_eq_left hle]
      refine iff_of_false ?_ nofun
      rw [if_neg (Nat.not_le.mpr hpos)]
      apply lossy_ne_empty
      rw [← List.length_pos_iff, Array.length_toList, Array.size_extract, Nat.min_eq_left hle]
      exact hpos

/-! ## The two ways round -/

/-- Two cursors that reading leads to give the same text both ways round, unless one is before
everything and the other on the first code point, and this is to be taken. -/
theorem textBetween_swap_iff (ha : a.InPlace buf) (hb : b.InPlace buf) {p q : Scanner}
    (hp : p.buf = buf ∧ p.cur = a) (hq : q.buf = buf ∧ q.cur = b) (x y : Edge) :
    p.textBetween b x y = q.textBetween a x y ↔
      (y = .stop → ¬ a.FrontPair b ∧ ¬ b.FrontPair a) := by
  rw [textBetween_eq, textBetween_eq, hp.1, hp.2, hq.1, hq.2]
  rcases Nat.lt_trichotomy a.start b.start with hlt | heq | hlt
  case inl =>
    have hne := Nat.ne_of_lt hlt
    rw [if_neg (Nat.not_le.mpr hlt), if_pos (Nat.le_of_lt hlt)]
    exact iff_of_true rfl fun _ => ⟨fun h => hne h.start_eq, fun h => hne h.start_eq.symm⟩
  case inr.inr =>
    have hne := Nat.ne_of_gt hlt
    rw [if_pos (Nat.le_of_lt hlt), if_neg (Nat.not_le.mpr hlt)]
    exact iff_of_true rfl fun _ => ⟨fun h => hne h.start_eq, fun h => hne h.start_eq.symm⟩
  case inr.inl =>
    rw [if_pos (Nat.le_of_eq heq.symm), if_pos (Nat.le_of_eq heq)]
    rcases ha.eq_of_start_eq hb heq with rfl | hfront | hfront
    · -- a cursor that is the origin is on no code point
      exact iff_of_true rfl fun _ => ⟨fun h => h.2.1 h.1, fun h => h.2.1 h.1⟩
    · rcases spanText_front hb hfront x y with ⟨hback, hforth⟩
      rw [hback, eq_comm, hforth]
      cases y with
      | start => exact iff_of_true rfl nofun
      | stop => exact iff_of_false nofun fun h => (h rfl).1 hfront
    · rcases spanText_front ha hfront x y with ⟨hback, hforth⟩
      rw [hback, hforth]
      cases y with
      | start => exact iff_of_true rfl nofun
      | stop => exact iff_of_false nofun fun h => (h rfl).2 hfront

/-! ## Text read since a bookmark -/

/-- From a bookmark on, a text that was read is what there is. -/
theorem consumedSince_readOver {s : Scanner} {cs : List Char} {log : Array Event} (h : s.InBounds)
    (hcs : Utf8.encode cs <+: s.rest) :
    (s.readOver cs log).consumedSince s.cur = String.ofList cs := by
  have hstart : s.cur.start ≤ (s.readOver cs log).cur.start :=
    Cursor.start_le_start_across h.1 cs
  have hstop : (s.readOver cs log).cur.stop = s.cur.stop + (Utf8.encode cs).length :=
    Cursor.stop_across s.cur cs
  have hsize : (s.readOver cs log).cur.stop ≤ s.buf.size := (h.readOver hcs).2
  have hlo : min (Edge.stop.of s.cur) s.buf.size = s.cur.stop := Nat.min_eq_left h.2
  have hhi : min (Edge.stop.of (s.readOver cs log).cur) s.buf.size =
      s.cur.stop + (Utf8.encode cs).length := (Nat.min_eq_left hsize).trans hstop
  rw [consumedSince, textBetween_eq, if_pos hstart, spanText, buf_readOver, hlo, hhi]
  split
  · next hle =>
    -- only the empty text takes no bytes
    have hnil : cs = [] := Utf8.length_encode_eq_zero.mp (by omega)
    rw [hnil, String.ofList_nil]
  · rw [extract_eq_of_next hcs, Utf8.lossy_encode]

namespace Session

variable {es : List Step}

/-- Any two bookmarks that a session hands out over one buffer, each current when it is used: with
the cursor on the one and the other given, the text between them is the one that there is the other
way round, unless the range takes in the last code point and this is the first of the buffer, with
the other bookmark from before everything. -/
theorem run_textBetween_swap_iff {s : Scanner} (hs : Constructed s) (hes : ∀ e ∈ es, e.IsPlain)
    (hcur : (start s).AllCurrent es) {m : Member} (hm : m ∈ ((start s).run es).members)
    (ha : (m.edition, a) ∈ ((start s).run es).bookmarks)
    (hb : (m.edition, b) ∈ ((start s).run es).bookmarks) {p q : Scanner}
    (hp : p.buf = m.scanner.buf ∧ p.cur = a) (hq : q.buf = m.scanner.buf ∧ q.cur = b)
    (x y : Edge) :
    p.textBetween b x y = q.textBetween a x y ↔
      (y = .stop → ¬ a.FrontPair b ∧ ¬ b.FrontPair a) := by
  rcases run_settled hes hcur (settled_start hs) with ⟨buffers, h⟩
  rcases h.members m hm with ⟨_, hbuf, _⟩
  rw [hbuf] at hp hq
  exact textBetween_swap_iff (h.bookmarks _ ha).2 (h.bookmarks _ hb).2 hp hq x y

/-- The bookmarks from before everything, on the first code point and on the second. The first two
give the same text up to the beginning of the later one only. -/
theorem run_textBetween_swap_iff_three :
    let es : List Step := [.mark 0, .call 0 .advance, .mark 0, .call 0 .advance, .mark 0]
    let s := ofText "éa"
    let σ := (start s).run es
    let b : Cursor := ⟨'é', 0, 2⟩
    let c : Cursor := ⟨'a', 2, 3⟩
    (∀ e ∈ es, e.IsPlain) ∧ (start s).AllCurrent es ∧
      σ.bookmarks = [(0, c), (0, b), (0, .origin)] ∧
      (∀ x y, (s.moveTo b).textBetween c x y = (s.moveTo c).textBetween b x y) ∧
      (∀ x, (s.moveTo .origin).textBetween b x .start =
        (s.moveTo b).textBetween .origin x .start) ∧
      ∀ x, (s.moveTo .origin).textBetween b x .stop ≠ (s.moveTo b).textBetween .origin x .stop := by
  intro es s σ b c
  have hes : ∀ e ∈ es, e.IsPlain := by simp [es, Step.IsPlain, Call.IsPlain]
  have hcur : (start s).AllCurrent es := by decide +kernel
  have hmarks : σ.bookmarks = [(0, c), (0, b), (0, .origin)] := by decide +kernel
  have hmem : σ.members.map (fun m => (m.edition, m.scanner.buf)) = [(0, s.buf)] := by
    decide +kernel
  rcases List.map_eq_singleton_iff.mp hmem with ⟨m, hm, hms⟩
  have hed : m.edition = 0 := congrArg Prod.fst hms
  have hbuf : m.scanner.buf = s.buf := congrArg Prod.snd hms
  have hin : m ∈ σ.members := hm ▸ List.mem_singleton_self m
  have hmark : ∀ x ∈ [c, b, .origin], (m.edition, x) ∈ σ.bookmarks := by
    rw [hed, hmarks]
    simp
  have hmove : ∀ x ∈ [c, b, .origin], (s.moveTo x).buf = m.scanner.buf ∧ (s.moveTo x).cur = x := by
    rw [hbuf]
    decide +kernel
  have hfront : Cursor.origin.FrontPair b := ⟨rfl, by decide, rfl⟩
  have hc : c ∈ [c, b, .origin] := by simp
  have hb : b ∈ [c, b, .origin] := by simp
  have ho : Cursor.origin ∈ [c, b, .origin] := by simp
  have hbc := run_textBetween_swap_iff (.ofText _) hes hcur hin (hmark b hb) (hmark c hc)
    (hmove b hb) (hmove c hc)
  have hob := run_textBetween_swap_iff (.ofText _) hes hcur hin (hmark _ ho) (hmark b hb)
    (hmove _ ho) (hmove b hb)
  refine ⟨hes, hcur, hmarks, ?_, ?_, ?_⟩
  · intro x y
    refine (hbc x y).mpr fun _ => ⟨?_, ?_⟩
    · exact fun h => absurd h.1 (by decide)
    · exact fun h => absurd h.1 (by decide)
  · intro x
    exact (hob x .start).mpr fun h => absurd h (by decide)
  · intro x hx
    exact ((hob x .stop).mp hx rfl).1 hfront

/-- With the cursor from before everything and the first code point as the bookmark there is no text
between the two, although there is the code point the other way round. -/
theorem textBetween_front_differs :
    let es : List Step := [.mark 0, .call 0 .advance, .mark 0]
    let s := ofText "a"
    let σ := (start s).run es
    let b : Cursor := ⟨'a', 0, 1⟩
    (∀ e ∈ es, e.IsPlain) ∧ (start s).AllCurrent es ∧ σ.bookmarks = [(0, b), (0, .origin)] ∧
      (s.moveTo .origin).cur = .origin ∧ (s.moveTo .origin).textBetween b .stop .stop = "" ∧
      (s.moveTo b).cur = b ∧ (s.moveTo b).textBetween .origin .stop .stop = "a" := by
  intro es s σ b
  refine ⟨by simp [es, Step.IsPlain, Call.IsPlain], ?_, ?_, ?_, ?_, ?_, ?_⟩
  · decide +kernel
  · decide +kernel
  · decide +kernel
  · decide +kernel
  · decide +kernel
  · decide +kernel

end Session
end Scanner
end PegKit
