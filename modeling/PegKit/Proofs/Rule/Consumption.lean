import PegKit.Proofs.Scanner.Excerpts
import PegKit.Proofs.Text.Validity

/-! # What a rule consumes

The text since a bookmark from before a rule ran is what the rule consumed, byte for byte.

* `matched_readOver` and `matched_text`: a rule that matches has read a text, which is the text of
  the bytes that it went over.
* `recognize_consumedSince`: it is the text since the bookmark, and two rules one after the other
  consume the text of the one followed by the text of the other.
-/

namespace PegKit.Rule

open Scanner

variable {r : Rule} {s : Scanner}

/-- A rule that matches has read a text that came next. -/
theorem matched_readOver (hr : r.IsPlain) (h : s.InBounds) (hm : (r.recognize s).1 = true) :
    ∃ cs log, Utf8.encode cs <+: s.rest ∧ (r.recognize s).2 = s.readOver cs log := by
  have hs := settles_of_plain hr h
  generalize r.recognize s = out at hs hm ⊢
  cases hs with
  | @matched cs log reads means => exact ⟨cs, log, reads, rfl⟩
  | failed means => cases hm

/-- The text since the bookmark from before a match has the bytes between the two places. -/
theorem matched_text (hr : r.IsPlain) (h : s.InBounds) (hm : (r.recognize s).1 = true) :
    ∃ cs, (s.buf.extract s.cur.stop (r.recognize s).2.cur.stop).toList = Utf8.encode cs ∧
      (r.recognize s).2.consumedSince s.cur = String.ofList cs := by
  obtain ⟨cs, log, reads, ht⟩ := matched_readOver hr h hm
  have hstop : (r.recognize s).2.cur.stop = s.cur.stop + (Utf8.encode cs).length :=
    ht ▸ Cursor.stop_across s.cur cs
  exact ⟨cs, hstop ▸ extract_eq_of_next reads, ht ▸ consumedSince_readOver h reads⟩

/-- After a match, the text since the bookmark from before it has the bytes between the two places
and no others: they are valid, so nothing stands for a malformed run. If a second rule matches from
there on, the text since the first bookmark is the text that the first rule consumed, followed by
the text since the second bookmark. -/
theorem recognize_consumedSince (hr : r.IsPlain) (h : s.InBounds)
    (hm : (r.recognize s).1 = true) :
    let t := (r.recognize s).2
    t.buf = s.buf ∧ s.cur.stop ≤ t.cur.stop ∧ t.cur.stop ≤ s.buf.size ∧
      Utf8.IsValid (s.buf.extract s.cur.stop t.cur.stop).toList ∧
      Utf8.bytes (t.consumedSince s.cur) = (s.buf.extract s.cur.stop t.cur.stop).toList ∧
      ∀ r' : Rule, r'.IsPlain → (r'.recognize t).1 = true →
        let u := (r'.recognize t).2
        u.consumedSince s.cur = t.consumedSince s.cur ++ u.consumedSince t.cur := by
  intro t
  obtain ⟨cs, log, reads, ht⟩ : ∃ cs log, Utf8.encode cs <+: s.rest ∧ t = s.readOver cs log :=
    matched_readOver hr h hm
  have hbounds : t.InBounds := ht ▸ h.readOver reads
  have hbuf : t.buf = s.buf := ht ▸ rfl
  have hstop : t.cur.stop = s.cur.stop + (Utf8.encode cs).length :=
    ht ▸ Cursor.stop_across s.cur cs
  have htext : t.consumedSince s.cur = String.ofList cs := ht ▸ consumedSince_readOver h reads
  have hbytes : (s.buf.extract s.cur.stop t.cur.stop).toList = Utf8.encode cs :=
    hstop ▸ extract_eq_of_next reads
  refine ⟨hbuf, hstop ▸ Nat.le_add_right _ _, hbuf ▸ hbounds.2, ?_, ?_, ?_⟩
  · rw [hbytes]
    exact Utf8.isValid_encode cs
  · rw [hbytes, htext, Utf8.bytes_eq_encode, String.toList_ofList]
  · intro r' hr' hm' u
    obtain ⟨ds, log', reads', hu⟩ : ∃ ds log', Utf8.encode ds <+: t.rest ∧
        u = t.readOver ds log' := matched_readOver hr' hbounds hm'
    have hsecond : u.consumedSince t.cur = String.ofList ds :=
      hu ▸ consumedSince_readOver hbounds reads'
    -- both texts together were read from the first bookmark on
    have hboth : u = s.readOver (cs ++ ds) log' := by rw [hu, ht, readOver_readOver]
    have hwhole : u.consumedSince s.cur = String.ofList (cs ++ ds) :=
      hboth ▸ consumedSince_readOver h (prefix_encode_append reads (ht ▸ reads'))
    rw [hwhole, htext, hsecond, String.ofList_append]

/-- A letter of two bytes after a byte that begins nothing, and digits before another such byte. -/
theorem recognize_consumedSince_accent :
    let r := seq 1 [literal 2 "a", builtin .any]
    let r' := oneOrMore 0 (builtin .digit)
    let s : Scanner :=
      { buf := #[0x80, 0x61, 0xC3, 0xA9, 0x34, 0x32, 0xFF], cur := ⟨'x', 0, 1⟩,
        errors := #[⟨-1, .origin⟩], options := { maxErrors := some 3 } }
    let t := (r.recognize s).2
    let u := (r'.recognize t).2
    r.IsPlain ∧ r'.IsPlain ∧ s.InBounds ∧ (r.recognize s).1 = true ∧
      (r'.recognize t).1 = true ∧ Utf8.bytes (t.consumedSince s.cur) = [0x61, 0xC3, 0xA9] ∧
      u.consumedSince s.cur = "aé42" := by
  intro r r' s t u
  have hr : r.IsPlain := ⟨trivial, trivial, trivial⟩
  have hr' : r'.IsPlain := trivial
  have h : s.InBounds := ⟨by decide, by decide⟩
  have hm : (r.recognize s).1 = true := by decide +kernel
  have hm' : (r'.recognize t).1 = true := by decide +kernel
  obtain ⟨_, _, _, _, hbytes, hboth⟩ := recognize_consumedSince hr h hm
  have hspan : (s.buf.extract s.cur.stop t.cur.stop).toList = [0x61, 0xC3, 0xA9] := by
    decide +kernel
  have hfirst : t.consumedSince s.cur = "aé" := by decide +kernel
  have hsecond : u.consumedSince t.cur = "42" := by decide +kernel
  refine ⟨hr, hr', h, hm, hm', hbytes.trans hspan, ?_⟩
  rw [hboth r' hr' hm', hfirst, hsecond]
  rfl

end PegKit.Rule
