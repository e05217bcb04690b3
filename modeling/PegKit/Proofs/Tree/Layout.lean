import Mathlib.Data.List.Perm.Subperm
import PegKit.Proofs.Tree.Links

/-! # How children are laid out

The links of a tree against the lists of children that they stand for.

* `Tree.LaidOut` says that every link and every count is what the lists of children make it.
* `LaidOut.children_eq`: the children found along the links are those of the lists.
* `LaidOut.Joins` says that two chains of siblings are joined under a node, which is what every edit
  of links does; `Joins.laidOut` says what becomes of the lists.
* `LaidOut.linkUnder`, `LaidOut.unlink` and `LaidOut.relinkChildren`: so much for each edit.
-/

namespace PegKit

/-! ## Lists split at an element -/

theorem append_eq_append_cons {α : Type} {as bs l r : List α} {x : α} :
    as ++ bs = l ++ x :: r →
      (∃ m, as = l ++ x :: m ∧ r = m ++ bs) ∨ ∃ m, l = as ++ m ∧ bs = m ++ x :: r := by
  intro h
  rcases List.append_eq_append_iff.mp h with ⟨m, hl, hb⟩ | ⟨m, ha, hx⟩
  · exact Or.inr ⟨m, hl, hb⟩
  · cases m with
    | nil => exact Or.inr ⟨[], by simpa using ha.symm, by simpa using hx.symm⟩
    | cons y m =>
      rw [List.cons_append] at hx
      injection hx with hy hr
      subst hy
      exact Or.inl ⟨m, ha, hr⟩

/-- Of distinct elements only the last one is last. -/
theorem getLast?_eq_some_iff_of_nodup {α : Type} {l m : List α} {x : α}
    (h : (l ++ x :: m).Nodup) : (l ++ x :: m).getLast? = some x ↔ m = [] := by
  rw [List.getLast?_append, List.getLast?_cons, Option.some_or, Option.some.injEq]
  constructor
  · intro hx
    have hne : x ∉ m := (List.nodup_cons.mp (List.nodup_append.mp h).2.1).1
    cases hm : m.getLast? with
    | none => exact List.getLast?_eq_none_iff.mp hm
    | some y =>
      rw [hm] at hx
      exact absurd (hx ▸ List.mem_of_getLast? hm) hne
  · rintro rfl
    rfl

/-- Of distinct elements only the first one is first. -/
theorem head?_eq_some_iff_of_nodup {α : Type} {l m : List α} {x : α}
    (h : (l ++ x :: m).Nodup) : (l ++ x :: m).head? = some x ↔ l = [] := by
  cases l with
  | nil => simp
  | cons y l =>
    have hne : y ≠ x := by
      rintro rfl
      exact (List.nodup_cons.mp h).1 (List.mem_append_right l List.mem_cons_self)
    simp [hne]

/-- Of distinct elements only one is taken out. -/
theorem erase_append_cons {α : Type} [DecidableEq α] {l m : List α} {x : α}
    (h : (l ++ x :: m).Nodup) : (l ++ x :: m).erase x = l ++ m := by
  have hx : x ∉ l := fun hm => (List.nodup_append.mp h).2.2 x hm x List.mem_cons_self rfl
  rw [List.erase_append_right _ hx, List.erase_cons_head]

/-- Distinct indices below a bound are at most as many as the bound. -/
theorem length_le_of_nodup {ids : List Nat} {n : Nat} (hn : ids.Nodup) (h : ∀ id ∈ ids, id < n) :
    ids.length ≤ n := by
  have hs : ids ⊆ List.range n := fun id hid => List.mem_range.mpr (h id hid)
  have hle := (List.subperm_of_subset hn hs).length_le
  rwa [List.length_range] at hle

namespace Tree

/-! ## Chains -/

/-- Following a link from `start` meets exactly these nodes, in this order. -/
def Chain (t : Tree) (link : Node → Option NodeId) : (start : Option NodeId) → List NodeId → Prop
  | start, [] => start = none
  | start, id :: ids => start = some id ∧ t.Chain link (link (t.node id)) ids

theorem follow_eq_of_chain {t : Tree} {link : Node → Option NodeId} {start : Option NodeId}
    {ids : List NodeId} (h : t.Chain link start ids) {fuel : Nat} (hf : ids.length ≤ fuel) :
    t.follow link fuel start = ids := by
  induction ids generalizing start fuel with
  | nil =>
    obtain rfl : start = none := h
    cases fuel <;> rfl
  | cons id ids ih =>
    rcases h with ⟨rfl, hc⟩
    obtain ⟨fuel, rfl⟩ : ∃ k, fuel = k + 1 := ⟨fuel - 1, by simp at hf; omega⟩
    rw [follow, ih hc (Nat.le_of_succ_le_succ hf)]

/-! ## Layouts -/

/-- Two trees of one size with the same links and counts. -/
structure SameLinks (t u : Tree) : Prop where
  size_eq : t.size = u.size
  node_eq : ∀ j, (t.node j).parent = (u.node j).parent ∧ (t.node j).left = (u.node j).left ∧
    (t.node j).right = (u.node j).right ∧ (t.node j).first = (u.node j).first ∧
    (t.node j).last = (u.node j).last ∧ (t.node j).count = (u.node j).count

/-- The links and counts of a tree are those of the lists of children `kids`. -/
structure LaidOut (t : Tree) (kids : NodeId → List NodeId) : Prop where
  /-- A parent knows its first and its last child and how many there are. -/
  ends : ∀ p < t.size, (t.node p).first = (kids p).head? ∧ (t.node p).last = (kids p).getLast? ∧
    (t.node p).count = (kids p).length
  /-- A child knows its parent and its neighbours. -/
  place : ∀ p l c r, kids p = l ++ c :: r → c < t.size ∧ (t.node c).parent = some p ∧
    (t.node c).left = l.getLast? ∧ (t.node c).right = r.head?
  /-- A root has no neighbours. -/
  roots : ∀ c < t.size, (t.node c).parent = none →
    (t.node c).left = none ∧ (t.node c).right = none
  /-- A parent is in the tree and has its children. -/
  owned : ∀ c < t.size, ∀ p, (t.node c).parent = some p → p < t.size ∧ c ∈ kids p
  nodup : ∀ p, (kids p).Nodup
  /-- Nothing is under a node that is not in the tree. -/
  dead : ∀ p, t.size ≤ p → kids p = []

namespace LaidOut

variable {t : Tree} {kids : NodeId → List NodeId} {p c : NodeId}

theorem place_of_mem (h : t.LaidOut kids) (hc : c ∈ kids p) :
    c < t.size ∧ (t.node c).parent = some p := by
  rcases List.append_of_mem hc with ⟨l, r, hlr⟩
  rcases h.place p l c r hlr with ⟨hlt, hp, _⟩
  exact ⟨hlt, hp⟩

theorem neighbours (h : t.LaidOut kids) {l r : List NodeId} (hlr : kids p = l ++ c :: r) :
    (t.node c).left = l.getLast? ∧ (t.node c).right = r.head? :=
  (h.place p l c r hlr).2.2

theorem mem_iff (h : t.LaidOut kids) : c ∈ kids p ↔ c < t.size ∧ (t.node c).parent = some p :=
  ⟨h.place_of_mem, fun hc => (h.owned c hc.1 p hc.2).2⟩

theorem lt_of_mem (h : t.LaidOut kids) (hc : c ∈ kids p) : c < t.size := (h.place_of_mem hc).1

theorem eq_of_mem (h : t.LaidOut kids) {q : NodeId} (hp : c ∈ kids p) (hq : c ∈ kids q) : p = q :=
  Option.some.inj ((h.place_of_mem hp).2.symm.trans (h.place_of_mem hq).2)

theorem length_le (h : t.LaidOut kids) : (kids p).length ≤ t.size :=
  length_le_of_nodup (h.nodup p) fun _ hc => h.lt_of_mem hc

/-- The chain along `right` lists the children. -/
theorem chain (h : t.LaidOut kids) {l r : List NodeId} (hlr : kids p = l ++ r) :
    t.Chain Node.right r.head? r := by
  induction r generalizing l with
  | nil => rfl
  | cons c r ih =>
    have hr := ih (l := l ++ [c]) (by rw [hlr, List.append_assoc, List.singleton_append])
    rcases h.place p l c r hlr with ⟨_, _, _, hright⟩
    refine ⟨rfl, ?_⟩
    rwa [hright]

theorem first_eq (h : t.LaidOut kids) (p : NodeId) : (t.node p).first = (kids p).head? := by
  by_cases hp : p < t.size
  · exact (h.ends p hp).1
  · have hp := Nat.le_of_not_lt hp
    rw [node_of_le hp, h.dead p hp]
    rfl

/-- Following the links finds the children. -/
theorem children_eq (h : t.LaidOut kids) (p : NodeId) : t.children p = kids p := by
  have hc := h.chain (p := p) (l := []) rfl
  rw [← h.first_eq] at hc
  exact follow_eq_of_chain hc h.length_le

/-! ## Links stay inside -/

theorem parent_lt (h : t.LaidOut kids) (hc : c < t.size) {p : NodeId}
    (hp : (t.node c).parent = some p) : p < t.size :=
  (h.owned c hc p hp).1

theorem last_mem (h : t.LaidOut kids) {l : NodeId} (hp : p < t.size)
    (hl : (t.node p).last = some l) : l ∈ kids p := by
  rw [(h.ends p hp).2.1] at hl
  exact List.mem_of_getLast? hl

theorem neighbours_lt (h : t.LaidOut kids) (hc : c < t.size) :
    (∀ l, (t.node c).left = some l → l < t.size) ∧ ∀ r, (t.node c).right = some r → r < t.size := by
  cases hp : (t.node c).parent with
  | none =>
    rcases h.roots c hc hp with ⟨hl, hr⟩
    rw [hl, hr]
    exact ⟨nofun, nofun⟩
  | some p =>
    rcases List.append_of_mem (h.owned c hc p hp).2 with ⟨ls, rs, hlr⟩
    rcases h.place p ls c rs hlr with ⟨_, _, hl, hr⟩
    constructor
    · intro l hll
      have hm : l ∈ kids p := by
        rw [hlr]
        exact List.mem_append_left _ (List.mem_of_getLast? (hl.symm.trans hll))
      exact h.lt_of_mem hm
    · intro r hrr
      have hm : r ∈ kids p := by
        rw [hlr]
        have hmem := List.mem_of_head? (hr.symm.trans hrr)
        exact List.mem_append_right _ (List.mem_cons_of_mem c hmem)
      exact h.lt_of_mem hm

/-! ## Edits of links -/

/-- Two chains of siblings joined at one place. What the links say there is rewritten, so it does
not matter what they say before. -/
theorem neighbours_join {as bs l r : List NodeId} {x : NodeId}
    (ha : ∀ l c r, as = l ++ c :: r →
      (t.node c).left = l.getLast? ∧ (r ≠ [] → (t.node c).right = r.head?))
    (hb : ∀ l c r, bs = l ++ c :: r →
      (l ≠ [] → (t.node c).left = l.getLast?) ∧ (t.node c).right = r.head?)
    (hnd : (as ++ bs).Nodup) (hx : as ++ bs = l ++ x :: r) :
    (if bs.head? = some x then as.getLast? else (t.node x).left) = l.getLast? ∧
      (if as.getLast? = some x then bs.head? else (t.node x).right) = r.head? := by
  rcases List.nodup_append.mp hnd with ⟨hna, hnb, hdis⟩
  rcases append_eq_append_cons hx with ⟨m, rfl, rfl⟩ | ⟨m, rfl, rfl⟩
  · have hxm : x ∈ l ++ x :: m := List.mem_append_cons_self
    have hhead : bs.head? ≠ some x := fun he => hdis x hxm x (List.mem_of_head? he) rfl
    rcases ha l x m rfl with ⟨hleft, hright⟩
    rw [if_neg hhead]
    refine ⟨hleft, ?_⟩
    cases m with
    | nil => rw [if_pos List.getLast?_concat, List.nil_append]
    | cons y m =>
      rw [if_neg (mt (getLast?_eq_some_iff_of_nodup hna).mp (List.cons_ne_nil y m))]
      exact hright (List.cons_ne_nil y m)
  · have hxm : x ∈ m ++ x :: r := List.mem_append_cons_self
    have hlast : as.getLast? ≠ some x := fun he => hdis x (List.mem_of_getLast? he) x hxm rfl
    rcases hb m x r rfl with ⟨hleft, hright⟩
    rw [if_neg hlast]
    refine ⟨?_, hright⟩
    cases m with
    | nil => rw [List.nil_append, List.head?_cons, if_pos rfl, List.append_nil]
    | cons y m =>
      rw [if_neg (mt (head?_eq_some_iff_of_nodup hnb).mp (List.cons_ne_nil y m)),
        hleft (List.cons_ne_nil y m), List.getLast?_append, List.getLast?_cons, Option.some_or]

/-- In `u` the chains `as` and `bs` are joined and are the children of `p`, and `d` has no children,
unless it is the same node. What is neither in the chains nor a child of the two is as in `t`. -/
structure Joins (t : Tree) (kids : NodeId → List NodeId) (p d : NodeId) (as bs : List NodeId)
    (u : Tree) : Prop where
  size_eq : u.size = t.size
  live : p < t.size ∧ d < t.size
  nodup : (as ++ bs).Nodup
  /-- The nodes of the chains are children of the two or roots. -/
  taken : ∀ c ∈ as ++ bs, c < t.size ∧ ∀ q, c ∈ kids q → q = p ∨ q = d
  front : ∀ l c r, as = l ++ c :: r →
    (t.node c).left = l.getLast? ∧ (r ≠ [] → (t.node c).right = r.head?)
  back : ∀ l c r, bs = l ++ c :: r →
    (l ≠ [] → (t.node c).left = l.getLast?) ∧ (t.node c).right = r.head?
  ends : (u.node p).first = (as ++ bs).head? ∧ (u.node p).last = (as ++ bs).getLast? ∧
    (u.node p).count = (as ++ bs).length
  emptied : d ≠ p → (u.node d).first = none ∧ (u.node d).last = none ∧ (u.node d).count = 0
  others : ∀ q, q ≠ p → q ≠ d → (u.node q).first = (t.node q).first ∧
    (u.node q).last = (t.node q).last ∧ (u.node q).count = (t.node q).count
  /-- Only where the chains are joined do the neighbours change. -/
  placed : ∀ c ∈ as ++ bs, (u.node c).parent = some p ∧
    (u.node c).left = (if bs.head? = some c then as.getLast? else (t.node c).left) ∧
    (u.node c).right = if as.getLast? = some c then bs.head? else (t.node c).right
  freed : ∀ c ∉ as ++ bs, c ∈ kids p ∨ c ∈ kids d →
    (u.node c).parent = none ∧ (u.node c).left = none ∧ (u.node c).right = none
  kept : ∀ c ∉ as ++ bs, ¬ (c ∈ kids p ∨ c ∈ kids d) → (u.node c).parent = (t.node c).parent ∧
    (u.node c).left = (t.node c).left ∧ (u.node c).right = (t.node c).right

/-- The children of every node after a join. -/
theorem Joins.laidOut {u : Tree} {d : NodeId} {as bs : List NodeId} (h : t.LaidOut kids)
    (hj : Joins t kids p d as bs u) :
    u.LaidOut fun q => if q = p then as ++ bs else if q = d then [] else kids q := by
  constructor
  case ends =>
    intro q hq
    rw [hj.size_eq] at hq
    by_cases hqp : q = p
    · subst hqp
      rw [if_pos rfl]
      exact hj.ends
    by_cases hqd : q = d
    · subst hqd
      rw [if_neg hqp, if_pos rfl]
      exact hj.emptied hqp
    · rcases hj.others q hqp hqd with ⟨hf, hl, hn⟩
      rw [if_neg hqp, if_neg hqd, hf, hl, hn]
      exact h.ends q hq
  case place =>
    intro q l x r hlr
    rw [hj.size_eq]
    by_cases hqp : q = p
    · subst hqp
      rw [if_pos rfl] at hlr
      have hx : x ∈ as ++ bs := hlr ▸ List.mem_append_cons_self
      rcases hj.placed x hx with ⟨hpar, hl, hr⟩
      rw [hpar, hl, hr]
      exact ⟨(hj.taken x hx).1, rfl, neighbours_join hj.front hj.back hj.nodup hlr⟩
    by_cases hqd : q = d
    · rw [if_neg hqp, if_pos hqd] at hlr
      exact absurd hlr.symm (List.append_ne_nil_of_right_ne_nil l (List.cons_ne_nil x r))
    · -- a child of another node is not concerned
      rw [if_neg hqp, if_neg hqd] at hlr
      have hx : x ∈ kids q := hlr ▸ List.mem_append_cons_self
      have hout : x ∉ as ++ bs := fun hm => ((hj.taken x hm).2 q hx).elim hqp hqd
      have hnot : ¬ (x ∈ kids p ∨ x ∈ kids d) := by
        rintro (hm | hm)
        · exact hqp (h.eq_of_mem hx hm)
        · exact hqd (h.eq_of_mem hx hm)
      rcases hj.kept x hout hnot with ⟨hpar, hl, hr⟩
      rw [hpar, hl, hr]
      exact h.place q l x r hlr
  case roots =>
    intro x hx hpar
    rw [hj.size_eq] at hx
    by_cases hin : x ∈ as ++ bs
    · rw [(hj.placed x hin).1] at hpar
      cases hpar
    by_cases hwas : x ∈ kids p ∨ x ∈ kids d
    · exact (hj.freed x hin hwas).2
    · rcases hj.kept x hin hwas with ⟨hp, hl, hr⟩
      rw [hp] at hpar
      rw [hl, hr]
      exact h.roots x hx hpar
  case owned =>
    intro x hx q hpar
    rw [hj.size_eq] at hx ⊢
    by_cases hin : x ∈ as ++ bs
    · rw [(hj.placed x hin).1] at hpar
      obtain rfl : p = q := Option.some.inj hpar
      rw [if_pos rfl]
      exact ⟨hj.live.1, hin⟩
    by_cases hwas : x ∈ kids p ∨ x ∈ kids d
    · rw [(hj.freed x hin hwas).1] at hpar
      cases hpar
    · rw [(hj.kept x hin hwas).1] at hpar
      rcases h.owned x hx q hpar with ⟨hq, hmem⟩
      have hqp : q ≠ p := fun he => hwas (.inl (he ▸ hmem))
      have hqd : q ≠ d := fun he => hwas (.inr (he ▸ hmem))
      rw [if_neg hqp, if_neg hqd]
      exact ⟨hq, hmem⟩
  case nodup =>
    intro q
    split
    · exact hj.nodup
    · split
      · exact List.nodup_nil
      · exact h.nodup q
  case dead =>
    intro q hq
    rw [hj.size_eq] at hq
    have hne : ∀ {x}, x < t.size → q ≠ x := fun hx => Nat.ne_of_gt (Nat.lt_of_lt_of_le hx hq)
    rw [if_neg (hne hj.live.1), if_neg (hne hj.live.2)]
    exact h.dead q hq

/-- So it is where all the children come from one node. -/
theorem Joins.laidOut_same {u : Tree} {as bs : List NodeId} (h : t.LaidOut kids)
    (hj : Joins t kids p p as bs u) : u.LaidOut fun q => if q = p then as ++ bs else kids q := by
  have hsame : (fun q => if q = p then as ++ bs else kids q) =
      fun q => if q = p then as ++ bs else if q = p then [] else kids q := by
    funext q
    by_cases hq : q = p
    · rw [if_pos hq, if_pos hq]
    · rw [if_neg hq, if_neg hq, if_neg hq]
  rw [hsame]
  exact hj.laidOut h

/-- A layout is one of links and counts only. -/
theorem of_sameLinks {u : Tree} (h : t.LaidOut kids) (hs : u.SameLinks t) : u.LaidOut kids := by
  constructor
  case ends =>
    intro p hp
    rw [hs.size_eq] at hp
    rcases hs.node_eq p with ⟨_, _, _, hf, hl, hn⟩
    rw [hf, hl, hn]
    exact h.ends p hp
  case place =>
    intro p l c r hlr
    rcases hs.node_eq c with ⟨hp, hl, hr, _⟩
    rw [hs.size_eq, hp, hl, hr]
    exact h.place p l c r hlr
  case roots =>
    intro c hc hpar
    rw [hs.size_eq] at hc
    rcases hs.node_eq c with ⟨hp, hl, hr, _⟩
    rw [hp] at hpar
    rw [hl, hr]
    exact h.roots c hc hpar
  case owned =>
    intro c hc p hpar
    rw [hs.size_eq] at hc ⊢
    rw [(hs.node_eq c).1] at hpar
    exact h.owned c hc p hpar
  case nodup => exact h.nodup
  case dead =>
    intro p hp
    rw [hs.size_eq] at hp
    exact h.dead p hp

/-- A new root has no children and is nobody's child. -/
theorem makeRoot (h : t.LaidOut kids) (kind : Kind) (value : String) :
    (t.makeRoot kind value).2.LaidOut kids := by
  have hnode := @node_makeRoot t kind value
  constructor
  case ends =>
    intro q hq
    rw [size_makeRoot] at hq
    rw [hnode]
    by_cases hqs : q = t.size
    · rw [if_pos hqs, h.dead q (Nat.le_of_eq hqs.symm)]
      exact ⟨rfl, rfl, rfl⟩
    · rw [if_neg hqs]
      exact h.ends q (by omega)
  case place =>
    intro q l x r hlr
    have hplace := h.place q l x r hlr
    rw [size_makeRoot, hnode, if_neg (Nat.ne_of_lt hplace.1)]
    exact ⟨Nat.lt_succ_of_lt hplace.1, hplace.2⟩
  case roots =>
    intro x hx hxp
    rw [size_makeRoot] at hx
    rw [hnode] at hxp ⊢
    by_cases hxs : x = t.size
    · rw [if_pos hxs]
      exact ⟨rfl, rfl⟩
    · rw [if_neg hxs] at hxp ⊢
      exact h.roots x (by omega) hxp
  case owned =>
    intro x hx q hxp
    rw [size_makeRoot] at hx ⊢
    rw [hnode] at hxp
    by_cases hxs : x = t.size
    · rw [if_pos hxs] at hxp
      cases hxp
    · rw [if_neg hxs] at hxp
      rcases h.owned x (by omega) q hxp with ⟨hq, hmem⟩
      exact ⟨Nat.lt_succ_of_lt hq, hmem⟩
  case nodup => exact h.nodup
  case dead =>
    intro q hq
    rw [size_makeRoot] at hq
    exact h.dead q (by omega)

theorem not_mem_of_root (h : t.LaidOut kids) (hroot : (t.node c).parent = none) (q : NodeId) :
    c ∉ kids q := by
  intro hq
  rw [(h.place_of_mem hq).2] at hroot
  cases hroot

/-- To link a root joins it to the children that are there. -/
theorem joins_linkUnder (h : t.LaidOut kids) (hp : p < t.size) (hc : c < t.size)
    (hroot : (t.node c).parent = none) : Joins t kids p p (kids p) [c] (t.linkUnder p c) := by
  have hout := h.not_mem_of_root hroot
  have hends := h.ends p hp
  have hlast : ∀ {x}, (t.node p).last = some x → x ∈ kids p := fun hx => h.last_mem hp hx
  have hnode := node_linkUnder hp hc fun l hl => h.lt_of_mem (hlast hl)
  have hmem : ∀ {x}, x ∈ kids p ++ [c] ↔ x ∈ kids p ∨ x = c := by simp
  constructor
  case size_eq => exact size_linkUnder
  case live => exact ⟨hp, hp⟩
  case nodup =>
    refine List.nodup_append.mpr ⟨h.nodup p, by simp, ?_⟩
    rintro x hx y hy rfl
    exact hout p (List.mem_singleton.mp hy ▸ hx)
  case taken =>
    intro x hx
    rcases hmem.mp hx with hx | rfl
    · exact ⟨h.lt_of_mem hx, fun q hq => .inl (h.eq_of_mem hq hx)⟩
    · exact ⟨hc, fun q hq => absurd hq (hout q)⟩
  case front => exact fun l y r hk => (h.neighbours hk).imp_right fun hy _ => hy
  case back =>
    intro l y r hk
    obtain ⟨rfl, rfl, rfl⟩ : l = [] ∧ y = c ∧ r = [] := by
      cases l with
      | nil => simpa [eq_comm] using hk
      | cons z l => simp at hk
    exact ⟨fun hne => absurd rfl hne, (h.roots y hc hroot).2⟩
  case ends =>
    rw [hnode, hends.1, hends.2.1, hends.2.2]
    refine ⟨?_, ?_, ?_⟩
    · cases kids p <;> simp
    · simp
    · simp
  case emptied => exact fun hne => absurd rfl hne
  case others =>
    intro q hqp _
    rw [hnode]
    simp [Ne.symm hqp]
  case placed =>
    intro x hx
    rw [hnode, ← hends.2.1]
    rcases hmem.mp hx with hx | rfl
    · have hcx : c ≠ x := fun he => hout p (he ▸ hx)
      simp [hcx, (h.place_of_mem hx).2]
    · simp [(h.roots x hc hroot).2]
  case freed =>
    intro x hx hwas
    exact absurd (hmem.mpr (.inl (or_self_iff.mp hwas))) hx
  case kept =>
    intro x hx _
    have hcx : c ≠ x := fun he => hx (hmem.mpr (.inr he.symm))
    have hne : (t.node p).last ≠ some x := fun hl => hx (hmem.mpr (.inl (hlast hl)))
    rw [hnode]
    simp [hcx, hne]

/-- A root that is linked becomes the last child. -/
theorem linkUnder (h : t.LaidOut kids) (hp : p < t.size) (hc : c < t.size)
    (hroot : (t.node c).parent = none) :
    (t.linkUnder p c).LaidOut fun q => if q = p then kids p ++ [c] else kids q :=
  (h.joins_linkUnder hp hc hroot).laidOut_same h

/-- To unlink a root changes no link. -/
theorem sameLinks_unlink (h : t.LaidOut kids) (hc : c < t.size)
    (hroot : (t.node c).parent = none) : (t.unlink c).SameLinks t := by
  have hnode := node_unlink hc (fun p hp => h.parent_lt hc hp) (h.neighbours_lt hc).1
    (h.neighbours_lt hc).2
  rcases h.roots c hc hroot with ⟨hl, hr⟩
  refine ⟨size_unlink, ?_⟩
  intro j
  rw [hnode, hroot, hl, hr]
  by_cases hcj : c = j
  · subst hcj
    simp [hroot, hl, hr]
  · simp [hcj]

/-- To unlink a child joins the children before it and behind it. -/
theorem joins_unlink (h : t.LaidOut kids) {l r : List NodeId} (hlr : kids p = l ++ c :: r) :
    Joins t kids p p l r (t.unlink c) := by
  have hcp : c ∈ kids p := hlr ▸ List.mem_append_cons_self
  rcases h.place p l c r hlr with ⟨hc, hpar, hl, hr⟩
  have hp := h.parent_lt hc hpar
  have hends := h.ends p hp
  have hnd := h.nodup p
  rw [hlr] at hnd
  have hmem : ∀ {x}, x ∈ l ++ r ↔ x ∈ kids p ∧ x ≠ c := by
    intro x
    rw [← erase_append_cons hnd, ← hlr, (h.nodup p).mem_erase_iff, and_comm]
  have hleft : ∀ {x}, l.getLast? = some x → x ∈ kids p := fun hx =>
    (hmem.mp (List.mem_append_left r (List.mem_of_getLast? hx))).1
  have hright : ∀ {x}, r.head? = some x → x ∈ kids p := fun hx =>
    (hmem.mp (List.mem_append_right l (List.mem_of_head? hx))).1
  have hnode := node_unlink hc (fun p hp => h.parent_lt hc hp) (h.neighbours_lt hc).1
    (h.neighbours_lt hc).2
  simp only [hpar, hl, hr] at hnode
  constructor
  case size_eq => exact size_unlink
  case live => exact ⟨hp, hp⟩
  case nodup => exact hnd.sublist (List.Sublist.append_left (List.sublist_cons_self c r) l)
  case taken =>
    intro x hx
    have hx := (hmem.mp hx).1
    exact ⟨h.lt_of_mem hx, fun q hq => .inl (h.eq_of_mem hq hx)⟩
  case front =>
    intro l' y m hm
    have hk : kids p = l' ++ y :: (m ++ c :: r) := by rw [hlr, hm]; simp
    refine (h.neighbours hk).imp_right fun hy hne => hy.trans ?_
    exact List.head?_append_of_ne_nil m hne
  case back =>
    intro l' y m hm
    have hk : kids p = (l ++ c :: l') ++ y :: m := by rw [hlr, hm]; simp
    refine (h.neighbours hk).imp_left fun hy hne => hy.trans ?_
    rcases Option.ne_none_iff_exists'.mp (mt List.getLast?_eq_none_iff.mp hne) with ⟨z, hz⟩
    rw [List.getLast?_append, List.getLast?_cons, hz]
    rfl
  case ends =>
    have hf := head?_eq_some_iff_of_nodup hnd
    have hg := getLast?_eq_some_iff_of_nodup hnd
    rw [hnode]
    simp only [hends.1, hends.2.1, hends.2.2, hlr, hf, hg, true_and, if_true]
    refine ⟨?_, ?_, by simp⟩
    · cases l <;> simp
    · cases r <;> simp [List.getLast?_append]
  case emptied => exact fun hne => absurd rfl hne
  case others =>
    intro q hqp _
    rw [hnode]
    simp [Ne.symm hqp]
  case placed =>
    intro x hx
    rcases hmem.mp hx with ⟨hx, hxc⟩
    rw [hnode]
    simp [Ne.symm hxc, (h.place_of_mem hx).2]
  case freed =>
    intro x hx hwas
    obtain rfl : x = c := Decidable.of_not_not fun hne => hx (hmem.mpr ⟨or_self_iff.mp hwas, hne⟩)
    rw [hnode]
    simp
  case kept =>
    intro x _ hnot
    have hx : x ∉ kids p := fun hm => hnot (.inl hm)
    have hcx : c ≠ x := fun he => hx (he ▸ hcp)
    have hl' : l.getLast? ≠ some x := fun he => hx (hleft he)
    have hr' : r.head? ≠ some x := fun he => hx (hright he)
    rw [hnode]
    simp [hcx, hl', hr']

/-- A node that is unlinked is a child no more. -/
theorem unlink (h : t.LaidOut kids) (hc : c < t.size) :
    (t.unlink c).LaidOut fun q => (kids q).erase c := by
  cases hpar : (t.node c).parent with
  | none =>
    have hk : (fun q => (kids q).erase c) = kids :=
      funext fun q => List.erase_of_not_mem (h.not_mem_of_root hpar q)
    rw [hk]
    exact h.of_sameLinks (h.sameLinks_unlink hc hpar)
  | some p =>
    have hcp : c ∈ kids p := (h.owned c hc p hpar).2
    rcases List.append_of_mem hcp with ⟨l, r, hlr⟩
    have hk : (fun q => (kids q).erase c) = fun q => if q = p then l ++ r else kids q := by
      funext q
      by_cases hqp : q = p
      · rw [if_pos hqp, hqp, hlr, erase_append_cons (hlr ▸ h.nodup p)]
      · rw [if_neg hqp, List.erase_of_not_mem fun hm => hqp (h.eq_of_mem hm hcp)]
    rw [hk]
    exact (h.joins_unlink hlr).laidOut_same h

/-- To move the children of the donor joins them to those of the receiver. -/
theorem joins_relinkChildren (h : t.LaidOut kids) {r d f : NodeId} (hr : r < t.size)
    (hd : d < t.size) (hne : r ≠ d) (hf : (t.node d).first = some f) :
    Joins t kids r d (kids r) (kids d) (t.relinkChildren r d) := by
  have hendr := h.ends r hr
  have hendd := h.ends d hd
  have hhead : (kids d).head? = some f := hendd.1.symm.trans hf
  have hfd : f ∈ kids d := List.mem_of_head? hhead
  have hlast : ∀ {l}, (t.node r).last = some l → l ∈ kids r := fun hl => h.last_mem hr hl
  have hdis : ∀ {x}, x ∈ kids r → x ∉ kids d := fun hxr hxd => hne (h.eq_of_mem hxr hxd)
  have hnode := node_relinkChildren hne hr hd hf (h.lt_of_mem hfd)
    (fun l hl => h.lt_of_mem (hlast hl)) (fun c hc => h.lt_of_mem ((h.children_eq d) ▸ hc))
  rw [h.children_eq] at hnode
  constructor
  case size_eq => exact size_relinkChildren
  case live => exact ⟨hr, hd⟩
  case nodup =>
    refine List.nodup_append.mpr ⟨h.nodup r, h.nodup d, ?_⟩
    rintro x hx y hy rfl
    exact hdis hx hy
  case taken =>
    intro x hx
    rcases List.mem_append.mp hx with hx | hx
    · exact ⟨h.lt_of_mem hx, fun q hq => .inl (h.eq_of_mem hq hx)⟩
    · exact ⟨h.lt_of_mem hx, fun q hq => .inr (h.eq_of_mem hq hx)⟩
  case front => exact fun l y s hk => (h.neighbours hk).imp_right fun hy _ => hy
  case back => exact fun l y s hk => (h.neighbours hk).imp_left fun hy _ => hy
  case ends =>
    have hz := List.getLast?_eq_some_getLast (List.ne_nil_of_mem hfd)
    rw [hnode]
    simp only [if_neg hne.symm, if_true, true_and]
    refine ⟨?_, ?_, ?_⟩
    · rw [hendr.1, hendr.2.1, List.head?_append, hhead]
      cases kids r <;> simp
    · rw [hendd.2.1, List.getLast?_append, hz, Option.some_or]
    · rw [hendr.2.2, hendd.2.2, List.length_append]
  case emptied =>
    intro _
    rw [hnode]
    simp
  case others =>
    intro q hqr hqd
    rw [hnode]
    simp [Ne.symm hqr, Ne.symm hqd]
  case placed =>
    intro x hx
    have hpar : (if x ∈ kids d then some r else (t.node x).parent) = some r := by
      rcases List.mem_append.mp hx with hx | hx
      · rw [if_neg (hdis hx)]
        exact (h.place_of_mem hx).2
      · exact if_pos hx
    rw [hnode, hhead, ← hendr.2.1]
    refine ⟨hpar, ?_, rfl⟩
    -- the first of the children has nothing to its left, so it does not matter to rewrite that
    by_cases hfx : f = x
    · subst hfx
      have hfirst : (t.node f).left = none := by
        rcases List.head?_eq_some_iff.mp hhead with ⟨ks, hk⟩
        exact (h.neighbours (l := []) hk).1
      cases hl : (t.node r).last <;> simp [hfirst]
    · simp [hfx]
  case freed => exact fun x hx hwas => absurd (List.mem_append.mpr hwas) hx
  case kept =>
    intro x hx hnot
    have hxd : x ∉ kids d := fun hm => hnot (.inr hm)
    have hfx : f ≠ x := fun he => hxd (he ▸ hfd)
    have hrx : (t.node r).last ≠ some x := fun he => hnot (.inl (hlast he))
    rw [hnode]
    simp [hxd, hfx, hrx]

/-- The children of the donor come behind those of the receiver. -/
theorem relinkChildren (h : t.LaidOut kids) {r d : NodeId} (hr : r < t.size) (hd : d < t.size)
    (hne : r ≠ d) :
    (t.relinkChildren r d).LaidOut
      fun q => if q = r then kids r ++ kids d else if q = d then [] else kids q := by
  cases hf : (t.node d).first with
  | none =>
    have hkd : kids d = [] := by
      rw [(h.ends d hd).1] at hf
      exact List.head?_eq_none_iff.mp hf
    have hk : (fun q => if q = r then kids r ++ kids d else if q = d then [] else kids q) =
        kids := by
      funext q
      by_cases hqr : q = r
      · rw [if_pos hqr, hkd, List.append_nil, hqr]
      · by_cases hqd : q = d
        · rw [if_neg hqr, if_pos hqd, hqd, hkd]
        · rw [if_neg hqr, if_neg hqd]
    rw [hk, relinkChildren_of_none hf]
    exact h
  | some f => exact (h.joins_relinkChildren hr hd hne hf).laidOut h

end LaidOut

end Tree

end PegKit
