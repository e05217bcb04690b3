import PegKit.Scanner.Locate

/-! # Locating one offset and many

The pass answers many offsets at once. What it answers to each is what a pass for that offset alone
answers.

* `Survey.seek` is the pass for one offset.
* `Query.run_eq`: a pass over waiting offsets in ascending order answers each as `seek` does.
* `Query.run_batch`: so does a pass over a batch, however its offsets were sorted.
* `Scanner.locate_eq_map` and `Scanner.locate_batch`: so it does not matter which offsets are
  located together.
-/

namespace PegKit

/-- The pass for one offset: the location where it first reaches the offset, or where it ends. -/
def Survey.seek (buf : Array UInt8) (newlines : List String) :
    (fuel : Nat) → Survey → (offset : Nat) → Location
  | 0, v, _ => v.here
  | fuel + 1, v, offset =>
    if offset ≤ v.offset || buf.size ≤ v.offset then v.here
    else
      let g := Segment.startingAt buf newlines v.offset
      let v := v.pass g
      if offset ≤ v.offset then v.here else seek buf newlines fuel (v.afterBreak g) offset

namespace Query

/-- Answers each query with what `f` says of its offset. -/
def fill (f : Nat → Location) (pending : List Query) (out : Array Location) : Array Location :=
  pending.foldl (fun out q => out.setIfInBounds q.slot (f q.offset)) out

section Fill

variable {f g : Nat → Location} {pending done rest : List Query} {out : Array Location}

theorem fill_append : fill f (done ++ rest) out = fill f rest (fill f done out) :=
  List.foldl_append

theorem fill_congr (h : ∀ q ∈ pending, f q.offset = g q.offset) :
    fill f pending out = fill g pending out := by
  induction pending generalizing out with
  | nil => rfl
  | cons q pending ih =>
    rw [fill, List.foldl_cons, h q List.mem_cons_self]
    exact ih fun q hq => h q (List.mem_cons_of_mem _ hq)

theorem size_fill : (fill f pending out).size = out.size := by
  induction pending generalizing out with
  | nil => rfl
  | cons q pending ih =>
    rw [fill, List.foldl_cons]
    exact ih.trans Array.size_setIfInBounds

/-- Queries for other slots leave a slot as it is. -/
theorem getElem?_fill_of_ne {i : Nat} (h : ∀ q ∈ pending, q.slot ≠ i) :
    (fill f pending out)[i]? = out[i]? := by
  induction pending generalizing out with
  | nil => rfl
  | cons q pending ih =>
    rw [fill, List.foldl_cons]
    refine (ih fun q hq => h q (List.mem_cons_of_mem _ hq)).trans ?_
    exact Array.getElem?_setIfInBounds_ne (h q List.mem_cons_self)

/-- Each query finds its answer in its slot, if no two ask for one slot. -/
theorem getElem?_fill {q : Query} (hn : (pending.map slot).Nodup) (hq : q ∈ pending)
    (hi : q.slot < out.size) : (fill f pending out)[q.slot]? = some (f q.offset) := by
  induction pending generalizing out with
  | nil => cases hq
  | cons p pending ih =>
    rw [List.map_cons, List.nodup_cons] at hn
    rw [fill, List.foldl_cons]
    rcases List.mem_cons.mp hq with rfl | hq
    · refine (getElem?_fill_of_ne ?_).trans (Array.getElem?_setIfInBounds_self_of_lt hi)
      intro p hp he
      exact hn.1 (he ▸ List.mem_map_of_mem hp)
    · exact ih hn.2 hq (by rwa [Array.size_setIfInBounds])

end Fill

end Query

/-! ## The pass -/

section Seek

variable {buf : Array UInt8} {newlines : List String} {v : Survey} {offset : Nat}

theorem Survey.seek_of_le (h : offset ≤ v.offset) (fuel : Nat) :
    v.seek buf newlines fuel offset = v.here := by
  cases fuel with
  | zero => rfl
  | succ fuel => rw [seek, if_pos (by simp [h])]

theorem Survey.seek_of_end (h : buf.size ≤ v.offset) (fuel : Nat) :
    v.seek buf newlines fuel offset = v.here := by
  cases fuel with
  | zero => rfl
  | succ fuel => rw [seek, if_pos (by simp [h])]

/-- An offset ahead is at the end of the next segment or behind it. -/
theorem Survey.seek_succ {g : Segment} (h : v.offset < offset) (hb : v.offset < buf.size)
    (hg : Segment.startingAt buf newlines v.offset = g) (fuel : Nat) :
    v.seek buf newlines (fuel + 1) offset =
      if offset ≤ (v.pass g).offset then (v.pass g).here
      else ((v.pass g).afterBreak g).seek buf newlines fuel offset := by
  have hnot : ¬ (decide (offset ≤ v.offset) || decide (buf.size ≤ v.offset)) = true := by
    simp [h, hb]
  rw [seek, if_neg hnot, hg]

end Seek

namespace Query

section Run

variable {buf : Array UInt8} {newlines : List String} {pending : List Query}

/-- What is answered are the queries up to the first one that lies ahead. -/
theorem answer_eq (hs : pending.Pairwise fun p q => p.offset ≤ q.offset) (v : Survey)
    (out : Array Location) :
    ∃ done rest, pending = done ++ rest ∧ (∀ q ∈ done, q.offset ≤ v.offset) ∧
      (∀ q ∈ rest, v.offset < q.offset) ∧
      answer v pending out = (rest, fill (fun _ => v.here) done out) := by
  induction pending generalizing out with
  | nil => exact ⟨[], [], rfl, nofun, nofun, rfl⟩
  | cons q pending ih =>
    rw [List.pairwise_cons] at hs
    rw [answer]
    split
    · next hq =>
      rcases ih hs.2 (out.setIfInBounds q.slot v.here) with ⟨done, rest, rfl, hd, hr, he⟩
      exact ⟨q :: done, rest, rfl, List.forall_mem_cons.mpr ⟨hq, hd⟩, hr, he⟩
    · next hq =>
      have hq := Nat.lt_of_not_le hq
      refine ⟨[], q :: pending, rfl, nofun, ?_, rfl⟩
      exact List.forall_mem_cons.mpr ⟨hq, fun p hp => Nat.lt_of_lt_of_le hq (hs.1 p hp)⟩

/-- A pass over waiting offsets answers each as a pass for it alone does. -/
theorem run_eq (hs : pending.Pairwise fun p q => p.offset ≤ q.offset) (fuel : Nat) (v : Survey)
    (out : Array Location) :
    run buf newlines fuel v pending out = fill (v.seek buf newlines fuel) pending out := by
  -- on the fuel: each step answers some queries, and the rest of the pass the others
  induction fuel generalizing v pending out with
  | zero => rfl
  | succ fuel ih =>
    rcases answer_eq hs v out with ⟨done, rest, rfl, hd, hr, he⟩
    have hdone : ∀ q ∈ done, v.seek buf newlines (fuel + 1) q.offset = v.here :=
      fun q hq => Survey.seek_of_le (hd q hq) _
    rw [run, he, fill_append, fill_congr (g := fun _ => v.here) hdone]
    generalize fill (fun _ => v.here) done out = out
    dsimp only
    split
    · next hend =>
      show fill (fun _ => v.here) rest out = _
      refine (fill_congr fun q hq => ?_).symm
      rcases Bool.or_eq_true_iff.mp hend with hnil | hbuf
      · rw [List.isEmpty_iff.mp hnil] at hq
        cases hq
      · exact Survey.seek_of_end (of_decide_eq_true hbuf) _
    · next hend =>
      have hbuf : v.offset < buf.size := by
        refine Nat.lt_of_not_le fun hb => hend ?_
        rw [decide_eq_true hb, Bool.or_true]
      generalize hg : Segment.startingAt buf newlines v.offset = g
      have hs := (List.pairwise_append.mp hs).2.1
      rcases answer_eq hs (v.pass g) out with ⟨inside, ahead, rfl, hi, ha, he'⟩
      have hinside : ∀ q ∈ inside, v.seek buf newlines (fuel + 1) q.offset = (v.pass g).here := by
        intro q hq
        rw [Survey.seek_succ (hr q (List.mem_append_left _ hq)) hbuf hg, if_pos (hi q hq)]
      have hahead : ∀ q ∈ ahead, v.seek buf newlines (fuel + 1) q.offset =
          ((v.pass g).afterBreak g).seek buf newlines fuel q.offset := by
        intro q hq
        rw [Survey.seek_succ (hr q (List.mem_append_right _ hq)) hbuf hg,
          if_neg (Nat.not_le.mpr (ha q hq))]
      rw [he', fill_append, fill_congr (g := fun _ => (v.pass g).here) hinside, fill_congr hahead]
      exact ih (List.pairwise_append.mp hs).2.1 _ _

end Run

end Query

/-! ## Batches -/

namespace Query

/-- The queries of a batch, in the order of the offsets. -/
def batch (offsets : List Nat) : List Query :=
  offsets.zipIdx.map fun p => ⟨p.1, p.2⟩

variable {buf : Array UInt8} {newlines : List String} {offsets : List Nat} {sorted : List Query}

theorem nodup_slot_batch (offsets : List Nat) : ((batch offsets).map slot).Nodup := by
  have hids : (batch offsets).map slot = List.range' 0 offsets.length := by
    rw [batch, List.map_map]
    exact List.zipIdx_map_snd 0 offsets
  rw [hids]
  exact List.nodup_range'

/-- A pass over a batch in ascending order, in whichever order it takes offsets that are equal,
answers each offset in its slot. -/
theorem run_batch (hperm : sorted.Perm (batch offsets))
    (hs : sorted.Pairwise fun p q => p.offset ≤ q.offset) (fuel : Nat) (v : Survey) :
    (run buf newlines fuel v sorted (Array.replicate offsets.length {})).toList =
      offsets.map (v.seek buf newlines fuel) := by
  have hslots : (sorted.map slot).Nodup :=
    (hperm.map slot).nodup_iff.mpr (nodup_slot_batch offsets)
  rw [run_eq hs]
  apply List.ext_getElem?
  intro i
  rw [List.getElem?_map, Array.getElem?_toList]
  cases ho : offsets[i]? with
  | none =>
    have hi := List.getElem?_eq_none_iff.mp ho
    refine Array.getElem?_eq_none ?_
    rw [size_fill, Array.size_replicate]
    exact hi
  | some offset =>
    have hmem : Query.mk offset i ∈ sorted := by
      refine hperm.mem_iff.mpr (List.mem_map.mpr ⟨(offset, i), ?_, rfl⟩)
      exact List.mk_mem_zipIdx_iff_getElem?.mpr ho
    refine getElem?_fill hslots hmem ?_
    rw [Array.size_replicate]
    exact (List.getElem?_eq_some_iff.mp ho).1

/-- The queries sorted by offset are in ascending order. -/
theorem pairwise_mergeSort_offset (pending : List Query) :
    (pending.mergeSort fun a b => a.offset ≤ b.offset).Pairwise fun p q =>
      p.offset ≤ q.offset := by
  have hp : (pending.mergeSort fun a b => a.offset ≤ b.offset).Pairwise fun p q =>
      decide (p.offset ≤ q.offset) = true := by
    apply List.pairwise_mergeSort
    · intro a b c hab hbc
      exact decide_eq_true (Nat.le_trans (of_decide_eq_true hab) (of_decide_eq_true hbc))
    · intro a b
      rw [Bool.or_eq_true_iff, decide_eq_true_iff, decide_eq_true_iff]
      exact Nat.le_total _ _
  exact hp.imp of_decide_eq_true

end Query

/-! ## Locating -/

namespace Scanner

/-- Each offset is located as if it were the only one. -/
theorem locate_eq_map (s : Scanner) (offsets : List Nat) : s.locate offsets =
    offsets.map (({} : Survey).seek s.buf s.options.newlines s.buf.size) :=
  Query.run_batch (List.mergeSort_perm _ _) (Query.pairwise_mergeSort_offset _) s.buf.size {}

/-- The location of a cursor is where a pass for its end finds it. -/
theorem location_eq (s : Scanner) : s.location =
    ({} : Survey).seek s.buf s.options.newlines s.buf.size s.cur.stop := by
  rw [location, locate_eq_map]
  rfl

/-- A batch has as many answers as offsets, each the only answer to its offset alone. It does not
matter in which order a sort leaves offsets that are equal. -/
theorem locate_batch (s : Scanner) (offsets : List Nat) :
    (s.locate offsets).length = offsets.length ∧
    (∀ i (hi : i < offsets.length), ∃ p, (s.locate offsets)[i]? = some p ∧
      s.locate [offsets[i]] = [p]) ∧
    ∀ sorted : List Query, sorted.Perm (Query.batch offsets) →
      sorted.Pairwise (fun p q => p.offset ≤ q.offset) →
      (Query.run s.buf s.options.newlines s.buf.size {} sorted
        (Array.replicate offsets.length {})).toList = s.locate offsets := by
  rw [locate_eq_map]
  refine ⟨List.length_map _, ?_, ?_⟩
  · intro i hi
    refine ⟨({} : Survey).seek s.buf s.options.newlines s.buf.size offsets[i], ?_, ?_⟩
    · rw [List.getElem?_map, List.getElem?_eq_getElem hi]
      rfl
    · rw [locate_eq_map]
      rfl
  · intro sorted hperm hs
    exact Query.run_batch hperm hs s.buf.size {}

/-- An offset twice, in a line break and behind the buffer, before a smaller one. The pass may take
the second of the two first. -/
theorem locate_batch_tie :
    let s := ofText "a\r\nb\r\n"
    let offsets := [9, 2, 4, 2]
    let sorted : List Query := [⟨2, 3⟩, ⟨2, 1⟩, ⟨4, 2⟩, ⟨9, 0⟩]
    sorted.Perm (Query.batch offsets) ∧ sorted.Pairwise (fun p q => p.offset ≤ q.offset) ∧
      3 < offsets.length ∧ s.locate [2] = [⟨'\n', 3, 3, 1, 3, 3⟩] ∧
      s.locate offsets = [⟨'\n', 6, 6, 3, 0, 0⟩, ⟨'\n', 3, 3, 1, 3, 3⟩, ⟨'b', 4, 4, 2, 1, 1⟩,
        ⟨'\n', 3, 3, 1, 3, 3⟩] := by
  intro s offsets sorted
  have hperm : sorted.Perm (Query.batch offsets) := by decide
  have hs : sorted.Pairwise fun p q => p.offset ≤ q.offset := by decide
  have hi : 3 < offsets.length := by decide
  obtain ⟨_, heach, hties⟩ := s.locate_batch offsets
  have hrun : (Query.run s.buf s.options.newlines s.buf.size {} sorted
      (Array.replicate offsets.length {})).toList = [⟨'\n', 6, 6, 3, 0, 0⟩,
        ⟨'\n', 3, 3, 1, 3, 3⟩, ⟨'b', 4, 4, 2, 1, 1⟩, ⟨'\n', 3, 3, 1, 3, 3⟩] := by
    decide +kernel
  have hall := (hties sorted hperm hs).symm.trans hrun
  obtain ⟨p, hp, halone⟩ := heach 3 hi
  have hp' : p = ⟨'\n', 3, 3, 1, 3, 3⟩ := by
    rw [hall] at hp
    exact (Option.some.inj hp).symm
  exact ⟨hperm, hs, hi, hp' ▸ halone, hall⟩

end Scanner

end PegKit
