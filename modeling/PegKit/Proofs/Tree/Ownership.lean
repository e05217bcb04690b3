import PegKit.Proofs.Tree.Calls
import PegKit.Proofs.Tree.Extension

/-! # Calls on new nodes only

Who names only the nodes from some index on, changes none before it.

* `Tree.Apart`: no edge leads from the nodes before an index to those behind it.
* `linkUnder_spares`, `unlink_spares` and their like: an edit of nodes behind the index leaves every
  node before it as it is.
* `BuiltAbove.spares`: so does every run of such calls, and `BuiltAbove.extends`: what a run builds
  behind a tree extends it.
-/

namespace PegKit.Tree

variable {c : Nat} {t u v : Tree} {id p q x : NodeId}

/-! ## Before and behind -/

/-- A node before `c` has its parent before `c`, and one behind has it behind. -/
def Apart (c : Nat) (t : Tree) : Prop :=
  ∀ x p, (t.node x).parent = some p → (c ≤ x ↔ c ≤ p)

/-- The nodes of `t` before `c` are in `u` as they are in `t`. -/
structure Spares (c : Nat) (t u : Tree) : Prop where
  le_size : c ≤ u.size
  node_eq : ∀ x < c, u.node x = t.node x

theorem Spares.refl (hc : c ≤ t.size) : Spares c t t := ⟨hc, fun _ _ => rfl⟩

theorem Spares.trans (h : Spares c t u) (h' : Spares c u v) : Spares c t v :=
  ⟨h'.le_size, fun x hx => (h'.node_eq x hx).trans (h.node_eq x hx)⟩

theorem Sound.apart (h : t.Sound) : Apart t.size t := by
  intro x p hp
  rcases h.parent_lt hp with ⟨hx, hp'⟩
  exact ⟨fun hle => absurd hx (Nat.not_lt.mpr hle), fun hle => absurd hp' (Nat.not_lt.mpr hle)⟩

theorem Chain.congr {link : Node → Option NodeId} {start : Option NodeId} {ids : List NodeId}
    (h : t.Chain link start ids) (hl : ∀ id ∈ ids, u.node id = t.node id) :
    u.Chain link start ids := by
  induction ids generalizing start with
  | nil => exact h
  | cons id ids ih =>
    rw [Chain, hl id List.mem_cons_self]
    exact ⟨h.1, ih h.2 fun i hi => hl i (List.mem_cons_of_mem id hi)⟩

section Apart

variable (h : t.Sound) (ha : Apart c t)

include h ha

theorem le_child (hp : c ≤ p) (hx : x ∈ t.children p) : c ≤ x :=
  (ha x p (h.mem_children_iff.mp hx)).mpr hp

/-- The children of a node before the index are found along nodes before it. -/
theorem Spares.children_eq (hs : Spares c t u) (hx : x < c) : u.children x = t.children x := by
  have hlt : ∀ y ∈ t.children x, y < c := by
    intro y hy
    refine Nat.lt_of_not_le fun hle => ?_
    exact Nat.not_lt.mpr ((ha y x (h.mem_children_iff.mp hy)).mp hle) hx
  have hc : u.Chain Node.right (t.children x).head? (t.children x) :=
    (h.laidOut.chain (p := x) (l := []) rfl).congr fun y hy => hs.node_eq y (hlt y hy)
  rw [← h.laidOut.first_eq, ← hs.node_eq x hx] at hc
  refine follow_eq_of_chain hc (length_le_of_nodup (h.laidOut.nodup x) fun y hy => ?_)
  exact Nat.lt_of_lt_of_le (hlt y hy) hs.le_size

/-- What is spared stays apart. -/
theorem Spares.apart (hs : Spares c t u) (hu : u.Sound) : Apart c u := by
  intro y p hp
  constructor
  · intro hy
    refine Nat.le_of_not_lt fun hlt => Nat.not_lt.mpr hy ?_
    -- a child of a node before the index was its child all along
    have hmem := hu.mem_children_iff.mpr hp
    rw [hs.children_eq h ha hlt] at hmem
    exact Nat.lt_of_not_le fun hle =>
      Nat.not_lt.mpr ((ha y p (h.mem_children_iff.mp hmem)).mp hle) hlt
  · intro hp'
    refine Nat.le_of_not_lt fun hlt => ?_
    rw [hs.node_eq y hlt] at hp
    exact Nat.not_lt.mpr ((ha y p hp).mpr hp') hlt

/-! ## Edits behind the index -/

theorem linkUnder_spares (hc : c ≤ t.size) (hp : p < t.size) (hx : x < t.size) (hcp : c ≤ p)
    (hcx : c ≤ x) : Spares c t (t.linkUnder p x) := by
  refine ⟨le_of_le_of_eq hc size_linkUnder.symm, ?_⟩
  intro y hy
  have hpy : p ≠ y := fun he => Nat.not_lt.mpr hcp (he ▸ hy)
  have hxy : x ≠ y := fun he => Nat.not_lt.mpr hcx (he ▸ hy)
  have hlast : (t.node p).last ≠ some y := fun hl =>
    Nat.not_lt.mpr (le_child h ha hcp (h.laidOut.last_mem hp hl)) hy
  rw [node_linkUnder hp hx fun l hl => h.last_lt hp hl]
  simp [hpy, hxy, hlast]

/-- The neighbours of a node behind the index are behind it, and so is its parent. -/
theorem le_neighbours (hid : id < t.size) (hc : c ≤ id) :
    (∀ l, (t.node id).left = some l → c ≤ l) ∧ (∀ r, (t.node id).right = some r → c ≤ r) ∧
      ∀ p, (t.node id).parent = some p → c ≤ p := by
  have hparent : ∀ p, (t.node id).parent = some p → c ≤ p := fun p hp => (ha id p hp).mp hc
  cases hp : (t.node id).parent with
  | none =>
    rcases h.laidOut.roots id hid hp with ⟨hl, hr⟩
    rw [hl, hr]
    exact ⟨nofun, nofun, nofun⟩
  | some p =>
    have hcp := hparent p hp
    rcases List.append_of_mem (h.mem_children_iff.mpr hp) with ⟨ls, rs, hlr⟩
    rcases h.laidOut.place p ls id rs hlr with ⟨_, _, hl, hr⟩
    refine ⟨fun l hll => ?_, fun r hrr => ?_, fun q hq => Option.some.inj hq ▸ hcp⟩
    · refine le_child h ha hcp (hlr ▸ List.mem_append_left _ ?_)
      exact List.mem_of_getLast? (hl.symm.trans hll)
    · refine le_child h ha hcp (hlr ▸ List.mem_append_right _ (List.mem_cons_of_mem id ?_))
      exact List.mem_of_head? (hr.symm.trans hrr)

theorem unlink_spares (hc : c ≤ t.size) (hid : id < t.size) (hci : c ≤ id) :
    Spares c t (t.unlink id) := by
  rcases le_neighbours h ha hid hci with ⟨hl, hr, hp⟩
  refine ⟨le_of_le_of_eq hc size_unlink.symm, ?_⟩
  intro y hy
  have hne : ∀ {z : NodeId}, c ≤ z → z ≠ y := fun hz he => Nat.not_lt.mpr hz (he ▸ hy)
  have h1 : id ≠ y := hne hci
  have h2 : (t.node id).left ≠ some y := fun he => hne (hl y he) rfl
  have h3 : (t.node id).right ≠ some y := fun he => hne (hr y he) rfl
  have h4 : (t.node id).parent ≠ some y := fun he => hne (hp y he) rfl
  rw [node_unlink hid (fun p hp => h.laidOut.parent_lt hid hp) (h.laidOut.neighbours_lt hid).1
    (h.laidOut.neighbours_lt hid).2]
  simp [h1, h2, h3, h4]

theorem foldl_unlink_spares (hc : c ≤ t.size) {ids : List NodeId}
    (hids : ∀ id ∈ ids, c ≤ id ∧ id < t.size) : Spares c t (ids.foldl unlink t) := by
  induction ids generalizing t with
  | nil => exact .refl hc
  | cons id ids ih =>
    rcases hids id List.mem_cons_self with ⟨hci, hid⟩
    have hs := unlink_spares h ha hc hid hci
    refine hs.trans (ih (h.unlink hid) (hs.apart h ha (h.unlink hid)) hs.le_size fun i hi => ?_)
    rw [size_unlink]
    exact hids i (List.mem_cons_of_mem id hi)

theorem unlinkChildren_spares (hc : c ≤ t.size) (hci : c ≤ id) :
    Spares c t (t.unlinkChildren id) :=
  foldl_unlink_spares h ha hc fun _ hx => ⟨le_child h ha hci hx, h.laidOut.lt_of_mem hx⟩

theorem relinkChildren_spares {r d : NodeId} (hc : c ≤ t.size) (hr : r < t.size) (hd : d < t.size)
    (hne : r ≠ d) (hcr : c ≤ r) (hcd : c ≤ d) : Spares c t (t.relinkChildren r d) := by
  cases hf : (t.node d).first with
  | none =>
    rw [relinkChildren_of_none hf]
    exact .refl hc
  | some f =>
    have hfd : f ∈ t.children d := by
      rw [h.laidOut.first_eq] at hf
      exact List.mem_of_head? hf
    refine ⟨le_of_le_of_eq hc size_relinkChildren.symm, ?_⟩
    intro y hy
    have hyz : ∀ {z : NodeId}, c ≤ z → z ≠ y := fun hz he => Nat.not_lt.mpr hz (he ▸ hy)
    have h1 : r ≠ y := hyz hcr
    have h2 : d ≠ y := hyz hcd
    have h3 : f ≠ y := hyz (le_child h ha hcd hfd)
    have h4 : y ∉ t.children d := fun hm => hyz (le_child h ha hcd hm) rfl
    have h5 : (t.node r).last ≠ some y := fun hl =>
      hyz (le_child h ha hcr (h.laidOut.last_mem hr hl)) rfl
    rw [node_relinkChildren hne hr hd hf (h.laidOut.lt_of_mem hfd) (fun l hl => h.last_lt hr hl)
      fun k hk => h.laidOut.lt_of_mem hk]
    simp [h1, h2, h3, h4, h5]

end Apart

theorem modify_spares (hc : c ≤ t.size) (hid : id < t.size) (hci : c ≤ id) (f : Node → Node) :
    Spares c t (t.modify id f) := by
  refine ⟨le_of_le_of_eq hc size_modify.symm, ?_⟩
  intro y hy
  have hne : id ≠ y := fun he => Nat.not_lt.mpr hci (he ▸ hy)
  rw [node_modify hid, if_neg hne]

theorem makeRoot_spares (hc : c ≤ t.size) (kind : Kind) (value : String) :
    Spares c t (t.makeRoot kind value).2 := by
  refine ⟨size_makeRoot ▸ Nat.le_succ_of_le hc, ?_⟩
  intro y hy
  rw [node_makeRoot, if_neg (Nat.ne_of_lt (Nat.lt_of_lt_of_le hy hc))]

theorem withCopies_spares (hc : c ≤ t.size) (order : List NodeId) :
    Spares c t (t.withCopies order) := by
  refine ⟨size_withCopies ▸ Nat.le_add_right_of_le hc, ?_⟩
  intro y hy
  exact node_withCopies_of_lt (Nat.lt_of_lt_of_le hy hc)

theorem truncate_spares {k : Nat} (hc : c ≤ t.size) (hcc : c ≤ k) :
    Spares c t (t.truncate k) := by
  refine ⟨size_truncate ▸ Nat.le_min.mpr ⟨hcc, hc⟩, ?_⟩
  intro y hy
  rw [node_truncate, if_pos (Nat.lt_of_lt_of_le hy hcc)]

section Compound

variable (h : t.Sound) (ha : Apart c t)

include h ha

theorem release_spares {k : Nat} (hc : c ≤ t.size) (hid : id < t.size) (hci : c ≤ id) :
    Spares c t (release k t id) := by
  have hids : ∀ x ∈ (t.children id).filter (· < k), c ≤ x ∧ x < t.size := by
    intro x hx
    have hx := (List.mem_filter.mp hx).1
    exact ⟨le_child h ha hci hx, h.laidOut.lt_of_mem hx⟩
  have hs := foldl_unlink_spares h ha hc hids
  rcases h.foldl_unlink _ fun x hx => (hids x hx).2 with ⟨hu, hsize, _⟩
  rw [release]
  generalize ((t.children id).filter (· < k)).foldl unlink t = u at hs hu hsize ⊢
  split
  · have hid' : id < u.size := hsize ▸ hid
    exact hs.trans (unlink_spares hu (hs.apart h ha hu) hs.le_size hid' hci)
  · exact hs

theorem foldl_release_spares {k : Nat} (hc : c ≤ t.size) {ids : List NodeId}
    (hids : ∀ id ∈ ids, c ≤ id ∧ id < t.size) : Spares c t (ids.foldl (release k) t) := by
  induction ids generalizing t with
  | nil => exact .refl hc
  | cons id ids ih =>
    rcases hids id List.mem_cons_self with ⟨hci, hid⟩
    have hs := release_spares (k := k) h ha hc hid hci
    rcases release_spec (c := k) h hid with ⟨hu, hsize, _⟩
    refine hs.trans (ih hu (hs.apart h ha hu) hs.le_size fun i hi => ?_)
    rw [hsize]
    exact hids i (List.mem_cons_of_mem id hi)

theorem rollback_spares {k : Nat} (hc : c ≤ t.size) (hcc : c ≤ k) :
    Spares c t (t.rollback k) := by
  have hids : ∀ id ∈ (List.range' k (t.size - k)).reverse, c ≤ id ∧ id < t.size := by
    intro id hid
    have hle := (List.mem_range'_1.mp (List.mem_reverse.mp hid)).1
    exact ⟨Nat.le_trans hcc hle, lt_of_mem_forgotten t k id hid⟩
  have hs := foldl_release_spares (k := k) h ha hc hids
  exact hs.trans (truncate_spares hs.le_size hcc)

/-- A node that becomes a copy is changed, and so are its children and the copy. -/
theorem become_spares {target source : NodeId} (hc : c ≤ t.size) (ht : target < t.size)
    (hs : source < t.size) (hct : c ≤ target) (he : t.become target source = .ok u) :
    Spares c t u := by
  rw [become_eq ht hs, Except.ok.injEq] at he
  rw [← he]
  have h0 := gathered_byLevel h hs
  have h1 := sound_withCopies h h0
  have s1 := withCopies_spares hc (t.byLevel source)
  have hsize : t.size < (t.withCopies (t.byLevel source)).size := by
    rw [size_withCopies]
    exact Nat.lt_add_of_pos_right (List.length_pos_of_mem (List.mem_of_head? h0.head))
  generalize t.withCopies (t.byLevel source) = t1 at h1 s1 hsize ⊢
  have s2 := unlinkChildren_spares h1 (s1.apart h ha h1) s1.le_size hct
  rcases h1.unlinkChildren target with ⟨h2, hsize2, hnone, _⟩
  have ha2 := s2.apart h1 (s1.apart h ha h1) h2
  rw [← hsize2] at hsize
  generalize t1.unlinkChildren target = t2 at h2 s2 ha2 hsize hnone ⊢
  have ht2 : target < t2.size := Nat.lt_trans ht hsize
  rcases h2.fillFrom hsize ht2 hnone with ⟨h3, hl3, _⟩
  have s3 : Spares c t2 (t2.fillFrom target t.size) := by
    have hm := modify_spares s2.le_size hsize hc fun n => { n with value := "" }
    exact hm.trans (modify_spares hm.le_size (Nat.lt_of_lt_of_eq ht2 size_modify.symm) hct _)
  have s4 := relinkChildren_spares h3 (s3.apart h2 ha2 h3) s3.le_size (r := target)
    (hl3.size_eq ▸ ht2) (hl3.size_eq ▸ hsize) (Nat.ne_of_lt ht) hct hc
  exact s1.trans (s2.trans (s3.trans s4))

theorem insertPending_spares (hc : c ≤ t.size) {pending : List (Document × NodeId)}
    (hw : t.Waiting pending) (hown : ∀ d ∈ pending, c ≤ d.2) (fuel : Nat) :
    Spares c t (insertPending fuel pending t).2 := by
  -- on the fuel, as for soundness: what waits stays behind the index
  induction fuel generalizing t pending with
  | zero => exact .refl hc
  | succ fuel ih =>
    match pending with
    | [] => exact .refl hc
    | (doc, p) :: pending =>
      rcases hw (doc, p) List.mem_cons_self with ⟨hp, hv⟩
      unfold insertPending
      cases hd : doc.parts with
      | error e => exact .refl hc
      | ok parts =>
        rcases parts with ⟨kind, value, nodes⟩
        have h1 := h.makeRoot kind value
        have s1 := makeRoot_spares hc kind value
        have h2 := h.linkNew hp hv kind value
        have s2 := s1.trans (linkUnder_spares h1 (s1.apart h ha h1) s1.le_size
          (size_makeRoot ▸ Nat.lt_succ_of_lt hp) (size_makeRoot ▸ Nat.lt_succ_self t.size)
          (hown (doc, p) List.mem_cons_self) hc)
        refine s2.trans (ih h2 (s2.apart h ha h2) s2.le_size (Waiting.linkNew h hw hd) ?_)
        intro d hd
        rcases List.mem_append.mp hd with hd | hd
        · rcases List.mem_map.mp hd with ⟨n, _, rfl⟩
          exact hc
        · exact hown d (List.mem_cons_of_mem _ hd)

theorem insertDocument_spares (hc : c ≤ t.size) (doc : Document) :
    Spares c t (t.insertDocument doc).2 := by
  cases hd : doc.parts with
  | error e =>
    rw [insertDocument, hd]
    exact .refl hc
  | ok parts =>
    rcases parts with ⟨kind, value, nodes⟩
    have h1 := h.makeRoot kind value
    have s1 := makeRoot_spares hc kind value
    rw [insertDocument_eq hd]
    refine s1.trans (insertPending_spares h1 (s1.apart h ha h1) s1.le_size (waiting_makeRoot hd)
      ?_ doc.size)
    intro d hd
    rcases List.mem_map.mp hd with ⟨n, _, rfl⟩
    exact hc

theorem insertJson_spares (hc : c ≤ t.size) (text : String) : Spares c t (t.insertJson text).2 := by
  rw [insertJson]
  cases Document.read? text with
  | none => exact .refl hc
  | some doc =>
    have hs := insertDocument_spares h ha hc doc
    have hu := h.insertDocument doc
    dsimp only
    generalize t.insertDocument doc = out at hs hu ⊢
    rcases out with ⟨e | root, u⟩
    · exact hs.trans (rollback_spares hu (hs.apart h ha hu) hs.le_size hc)
    · exact hs

end Compound

/-! ## Calls -/

namespace Call

/-- The call names no node before `c`, and goes back to no point before it. -/
def Above (c : Nat) : Call → Prop
  | rollback checkpoint => c ≤ checkpoint
  | call => ∀ id ∈ call.ids, c ≤ id

end Call

theorem orKeep_spares (hc : c ≤ t.size) {e : Except TreeError Tree}
    (he : ∀ u, e = .ok u → Spares c t u) : Spares c t (t.orKeep e) := by
  cases e with
  | ok u => exact he u rfl
  | error _ => exact .refl hc

/-- A call that names only nodes behind the index changes none before it, one case for each
operation. -/
theorem Call.run_spares (h : t.Sound) (ha : Apart c t) (hc : c ≤ t.size) {call : Call}
    (hl : call.Live t) (hown : call.Above c) : Spares c t (call.run t) := by
  cases call with
  | makeRoot kind value => exact makeRoot_spares hc kind value
  | addChild parent kind value =>
    have hp : parent < t.size := hl parent List.mem_cons_self
    have h1 := h.makeRoot kind value
    have s1 := makeRoot_spares hc kind value
    have s2 := linkUnder_spares h1 (s1.apart h ha h1) s1.le_size
      (size_makeRoot ▸ Nat.lt_succ_of_lt hp) (size_makeRoot ▸ Nat.lt_succ_self t.size)
      (hown parent List.mem_cons_self) hc
    rw [run, addChild_eq hp]
    split
    · exact .refl hc
    · exact s1.trans s2
  | attach parent child =>
    have hp := hl parent List.mem_cons_self
    have hx := hl child (List.mem_cons_of_mem parent List.mem_cons_self)
    have hcp := hown parent List.mem_cons_self
    have hcx := hown child (List.mem_cons_of_mem parent List.mem_cons_self)
    refine orKeep_spares hc fun u he => ?_
    rw [(attach_eq_ok he).2]
    exact linkUnder_spares h ha hc hp hx hcp hcx
  | detach id =>
    have hid := hl id List.mem_cons_self
    rw [run, detach_eq hid]
    exact unlink_spares h ha hc hid (hown id List.mem_cons_self)
  | adopt receiver donor =>
    have hr := hl receiver List.mem_cons_self
    have hd := hl donor (List.mem_cons_of_mem receiver List.mem_cons_self)
    have hcr := hown receiver List.mem_cons_self
    have hcd := hown donor (List.mem_cons_of_mem receiver List.mem_cons_self)
    rw [run, adopt_eq hr hd]
    split_ifs with hne
    · exact .refl hc
    · exact .refl hc
    · exact .refl hc
    · split
      · exact .refl hc
      · exact relinkChildren_spares h ha hc hr hd hne hcr hcd
  | clone id =>
    rw [run, clone_eq (hl id List.mem_cons_self)]
    exact withCopies_spares hc _
  | become target source =>
    have ht := hl target List.mem_cons_self
    have hs := hl source (List.mem_cons_of_mem target List.mem_cons_self)
    have hct := hown target List.mem_cons_self
    exact orKeep_spares hc fun u he => become_spares h ha hc ht hs hct he
  | reset id =>
    have hid := hl id List.mem_cons_self
    have hci := hown id List.mem_cons_self
    have s1 := unlinkChildren_spares h ha hc hci
    rw [run, reset_eq hid]
    refine s1.trans (modify_spares s1.le_size ?_ hci _)
    rw [(h.unlinkChildren id).2.1]
    exact hid
  | setKind id kind =>
    have hid := hl id List.mem_cons_self
    rw [run, setKind_eq hid]
    exact modify_spares hc hid (hown id List.mem_cons_self) _
  | setValue id value =>
    have hid := hl id List.mem_cons_self
    rw [run, setValue_eq hid]
    split
    · exact .refl hc
    · exact modify_spares hc hid (hown id List.mem_cons_self) _
  | insertJson text => exact insertJson_spares h ha hc text
  | rollback checkpoint => exact rollback_spares h ha hc hown

/-- What calls that name only nodes behind `c` make of `t`, each call with nodes that the tree has
at the time. -/
inductive BuiltAbove (c : Nat) (t : Tree) : Tree → Prop
  | refl : BuiltAbove c t t
  | call {u : Tree} (x : Call) (h : BuiltAbove c t u) (live : x.Live u) (above : x.Above c) :
    BuiltAbove c t (x.run u)

theorem BuiltAbove.sound_and_spares (h : t.Sound) (ha : Apart c t) (hc : c ≤ t.size)
    (hb : BuiltAbove c t u) : u.Sound ∧ Spares c t u := by
  -- on the calls
  induction hb with
  | refl => exact ⟨h, .refl hc⟩
  | call x _ live above ih =>
    rcases ih with ⟨hu, hs⟩
    have hx := x.run_spares hu (hs.apart h ha hu) hs.le_size live above
    exact ⟨x.run_sound hu live, hs.trans hx⟩

/-- A tree that spares all nodes of another extends it. -/
theorem Spares.extends (h : t.Sound) (hu : u.Sound) (hs : Spares t.size t u) : u.Extends t := by
  constructor
  case sound => exact hu
  case size_le => exact hs.le_size
  case kind_eq =>
    intro x hx
    rw [hs.node_eq x hx]
  case value_eq =>
    intro x hx
    rw [hs.node_eq x hx]
  case parent_eq =>
    intro x hx
    rw [hs.node_eq x hx]
  case children_eq =>
    intro x hx
    rw [hs.children_eq h h.apart hx, List.filter_eq_self]
    intro y hy
    exact decide_eq_true (h.laidOut.lt_of_mem hy)

/-- What is built behind all nodes of a tree extends it. -/
theorem BuiltAbove.extends (h : t.Sound) (hb : BuiltAbove t.size t u) : u.Extends t := by
  rcases hb.sound_and_spares h h.apart (Nat.le_refl _) with ⟨hu, hs⟩
  exact hs.extends h hu

end PegKit.Tree
