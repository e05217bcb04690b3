import Mathlib.Data.List.Nodup
import PegKit.Registry.Basic

/-! # Consistent registries

A registry keeps its records twice over: by kind, and as the kind of each name. This module says how
the two maps hang together, whatever was entered and whatever was refused.

* `Registry.Consistent`: the map of names is the map of records read the other way round.
* `Registry.insert_cases`: what `insert` does, in five cases of which the first that applies counts.
* `Registry.InPlace` has the same call as changes of one registry, on which everything that is
  written before an error stays written. `InPlace.run_insert`: it ends as it does otherwise, and has
  written nothing if it is refused.
* `Reachable.consistent` and `Reachable.keeps`: what a run of calls preserves.
* `Reachable.consistent_and_insert`: the invariant, and when a record is refused, passed over or
  entered.
-/

namespace PegKit.Registry

variable {g h start : Registry} {r x : RuleRecord} {k l : Kind} {n : String}

/-! ## The two maps -/

/-- The two maps of a registry agree. -/
structure Consistent (g : Registry) : Prop where
  /-- A record is stored under its own kind. -/
  kind_eq : ∀ k r, g.get? k = some r → r.kind = k
  /-- The names are those of the records, in lower case and with the kinds of the records. -/
  names_iff : ∀ n k, g.names[n]? = some k ↔ ∃ r, g.get? k = some r ∧ lowercase r.name = n
  /-- No two records share a name, whatever its case. -/
  unique : ∀ k l r s, g.get? k = some r → g.get? l = some s →
    lowercase r.name = lowercase s.name → k = l
  /-- There are as many names as records. -/
  size_eq : g.names.size = g.size

/-- `h` is `g` with the record `r` and its name, neither of which `g` has. -/
structure Adds (g : Registry) (r : RuleRecord) (h : Registry) : Prop where
  new_kind : g.get? r.kind = none
  new_name : g.names[lowercase r.name]? = none
  get?_eq : ∀ k, h.get? k = if r.kind = k then some r else g.get? k
  names_eq : ∀ n, h.names[n]? = if lowercase r.name = n then some r.kind else g.names[n]?
  size_eq : h.size = g.size + 1
  names_size_eq : h.names.size = g.names.size + 1

/-! ## Entering a record -/

theorem get?_enter (g : Registry) (r : RuleRecord) (k : Kind) :
    (g.enter r).get? k = if r.kind = k then some r else g.get? k := by
  unfold get? enter
  simp only [Std.TreeMap.getElem?_insert, Std.LawfulEqCmp.compare_eq_iff_eq]

theorem names_enter (g : Registry) (r : RuleRecord) (n : String) :
    (g.enter r).names[n]? = if lowercase r.name = n then some r.kind else g.names[n]? := by
  unfold enter
  simp only [Std.TreeMap.getElem?_insert, Std.LawfulEqCmp.compare_eq_iff_eq]

/-- To enter a new record adds it. -/
theorem adds_enter (hk : g.get? r.kind = none) (hn : g.names[lowercase r.name]? = none) :
    g.Adds r (g.enter r) := by
  have hkind : g.rules.contains r.kind = false := by
    rw [Std.TreeMap.contains_eq_isSome_getElem?]
    exact Option.isSome_eq_false_iff.mpr (Option.isNone_iff_eq_none.mpr hk)
  have hname : g.names.contains (lowercase r.name) = false := by
    rw [Std.TreeMap.contains_eq_isSome_getElem?]
    exact Option.isSome_eq_false_iff.mpr (Option.isNone_iff_eq_none.mpr hn)
  constructor
  case new_kind => exact hk
  case new_name => exact hn
  case get?_eq => exact get?_enter g r
  case names_eq => exact names_enter g r
  case size_eq =>
    unfold size enter
    rw [Std.TreeMap.size_insert, hkind]
    rfl
  case names_size_eq =>
    unfold enter
    rw [Std.TreeMap.size_insert, hname]
    rfl

namespace Adds

/-- What was stored is stored still. -/
theorem get?_of_some (ha : g.Adds r h) (hk : g.get? k = some x) : h.get? k = some x := by
  have hne : r.kind ≠ k := by
    rintro rfl
    rw [ha.new_kind] at hk
    cases hk
  rw [ha.get?_eq, if_neg hne, hk]

/-- What is stored is the new record or was stored before. -/
theorem get?_eq_some_iff (ha : g.Adds r h) :
    h.get? k = some x ↔ r.kind = k ∧ r = x ∨ g.get? k = some x := by
  constructor
  · intro hk
    rw [ha.get?_eq] at hk
    split at hk
    · next heq => exact .inl ⟨heq, Option.some.inj hk⟩
    · exact .inr hk
  · rintro (⟨rfl, rfl⟩ | hk)
    · rw [ha.get?_eq, if_pos rfl]
    · exact ha.get?_of_some hk

/-- A new record keeps the maps in agreement. -/
theorem consistent (ha : g.Adds r h) (hg : g.Consistent) : h.Consistent := by
  -- no old record has the new name, because every old name is in the map
  have hother : ∀ k s, g.get? k = some s → lowercase s.name ≠ lowercase r.name := by
    intro k s hs heq
    have hname := (hg.names_iff _ k).mpr ⟨s, hs, heq⟩
    rw [ha.new_name] at hname
    cases hname
  have hnames : ∀ n k, h.names[n]? = some k ↔ ∃ s, h.get? k = some s ∧ lowercase s.name = n := by
    intro n k
    simp only [ha.get?_eq_some_iff]
    rw [ha.names_eq]
    split
    · next hn =>
      constructor
      · intro hk
        exact ⟨r, .inl ⟨Option.some.inj hk, rfl⟩, hn⟩
      · rintro ⟨s, ⟨hk, _⟩ | hs, hsn⟩
        · rw [hk]
        · exact absurd (hsn.trans hn.symm) (hother k s hs)
    · next hn =>
      rw [hg.names_iff]
      constructor
      · rintro ⟨s, hs, hsn⟩
        exact ⟨s, .inr hs, hsn⟩
      · rintro ⟨s, ⟨_, rfl⟩ | hs, hsn⟩
        · exact absurd hsn hn
        · exact ⟨s, hs, hsn⟩
  constructor
  case kind_eq =>
    intro k s hs
    rcases ha.get?_eq_some_iff.mp hs with ⟨rfl, rfl⟩ | hs
    · rfl
    · exact hg.kind_eq k s hs
  case names_iff => exact hnames
  case unique =>
    intro k l s s' hs hs' heq
    have hk := (hnames _ k).mpr ⟨s, hs, heq⟩
    rw [(hnames _ l).mpr ⟨s', hs', rfl⟩] at hk
    exact (Option.some.inj hk).symm
  case size_eq => rw [ha.names_size_eq, ha.size_eq, hg.size_eq]

end Adds

theorem consistent_empty : Consistent {} := by
  have hget : ∀ k, get? {} k = none := fun k => Std.TreeMap.getElem?_emptyc
  constructor
  case kind_eq =>
    intro k r hr
    rw [hget] at hr
    cases hr
  case names_iff =>
    intro n k
    simp only [hget, reduceCtorEq, false_and, exists_false, iff_false]
    rw [show ({} : Registry).names[n]? = none from Std.TreeMap.getElem?_emptyc]
    nofun
  case unique =>
    intro k l r s hr
    rw [hget] at hr
    cases hr
  case size_eq => rfl

/-! ## The builtin rules -/

/-- Records with different kinds and different names are entered one after the other. -/
theorem consistent_foldl_enter (rs : List RuleRecord) (hg : g.Consistent)
    (hkinds : (rs.map RuleRecord.kind).Nodup) (hnames : (rs.map (lowercase ·.name)).Nodup)
    (hk : ∀ r ∈ rs, g.get? r.kind = none) (hn : ∀ r ∈ rs, g.names[lowercase r.name]? = none) :
    (rs.foldl enter g).Consistent ∧ ∀ k x, (rs.foldl enter g).get? k = some x →
      g.get? k = some x ∨ x ∈ rs := by
  induction rs generalizing g with
  | nil => exact ⟨hg, fun k x hx => .inl hx⟩
  | cons r rs ih =>
    rcases List.nodup_cons.mp hkinds with ⟨hkind, hkinds⟩
    rcases List.nodup_cons.mp hnames with ⟨hname, hnames⟩
    have ha := adds_enter (hk r List.mem_cons_self) (hn r List.mem_cons_self)
    have hk' : ∀ s ∈ rs, (g.enter r).get? s.kind = none := by
      intro s hs
      rw [ha.get?_eq, if_neg fun heq => hkind (List.mem_map.mpr ⟨s, hs, heq.symm⟩)]
      exact hk s (List.mem_cons_of_mem r hs)
    have hn' : ∀ s ∈ rs, (g.enter r).names[lowercase s.name]? = none := by
      intro s hs
      rw [ha.names_eq, if_neg fun heq => hname (List.mem_map.mpr ⟨s, hs, heq.symm⟩)]
      exact hn s (List.mem_cons_of_mem r hs)
    rcases ih (ha.consistent hg) hkinds hnames hk' hn' with ⟨hc, hall⟩
    refine ⟨hc, fun k x hx => ?_⟩
    rcases hall k x hx with hx | hx
    · rcases ha.get?_eq_some_iff.mp hx with ⟨_, rfl⟩ | hx
      · exact .inr List.mem_cons_self
      · exact .inl hx
    · exact .inr (List.mem_cons_of_mem r hx)

/-- The builtin registry is consistent and holds nothing but builtin rules. -/
theorem builtin_spec : builtin.Consistent ∧ ∀ k x, builtin.get? k = some x →
    ∃ b : Builtin, b.kind = k ∧ x = .of (.builtin b) := by
  have hfold : builtin = (Builtin.all.map fun b => RuleRecord.of (.builtin b)).foldl enter {} := by
    rw [List.foldl_map]
    rfl
  rcases consistent_foldl_enter (Builtin.all.map fun b => RuleRecord.of (.builtin b))
    consistent_empty (by decide) (by decide +kernel) (fun _ _ => Std.TreeMap.getElem?_emptyc)
    (fun _ _ => Std.TreeMap.getElem?_emptyc) with ⟨hc, hall⟩
  rw [← hfold] at hc hall
  refine ⟨hc, fun k x hx => ?_⟩
  rcases hall k x hx with hnone | hmem
  · rw [show get? {} k = none from Std.TreeMap.getElem?_emptyc] at hnone
    cases hnone
  · rcases List.mem_map.mp hmem with ⟨b, _, rfl⟩
    exact ⟨b, hc.kind_eq k _ hx, rfl⟩

/-! ## Inserting a record -/

/-- What `insert` does. The kind is looked at first, and its name only if the kind is new. -/
theorem insert_cases (g : Registry) (r : RuleRecord) :
    r.kind ≤ untyped ∧ g.insert r = .error (.reserved r.kind) ∨
    untyped < r.kind ∧ (
      (∃ x, g.get? r.kind = some x ∧ x.name = r.name ∧ g.insert r = .ok g) ∨
      (∃ x, g.get? r.kind = some x ∧ x.name ≠ r.name ∧
        g.insert r = .error (.taken r.kind x.name)) ∨
      g.get? r.kind = none ∧ (
        (∃ k, g.names[lowercase r.name]? = some k ∧
          g.insert r = .error (.nameTaken r.name k)) ∨
        g.names[lowercase r.name]? = none ∧ g.insert r = .ok (g.enter r))) := by
  unfold insert
  by_cases hle : r.kind ≤ untyped
  · exact .inl ⟨hle, if_pos hle⟩
  refine .inr ⟨Int32.not_le.mp hle, ?_⟩
  rw [if_neg hle, show g.rules[r.kind]? = g.get? r.kind from rfl]
  cases hk : g.get? r.kind with
  | some x =>
    by_cases hname : x.name = r.name
    · exact .inl ⟨x, rfl, hname, if_pos hname⟩
    · exact .inr (.inl ⟨x, rfl, hname, if_neg hname⟩)
  | none =>
    refine .inr (.inr ⟨rfl, ?_⟩)
    cases hn : g.names[lowercase r.name]? with
    | some k => exact .inl ⟨k, rfl, rfl⟩
    | none => exact .inr ⟨rfl, rfl⟩

/-- A record that is accepted is passed over or added. -/
theorem insert_eq_ok (hi : g.insert r = .ok h) :
    untyped < r.kind ∧
      ((∃ x, g.get? r.kind = some x ∧ x.name = r.name) ∧ h = g ∨ g.Adds r h) := by
  rcases insert_cases g r with ⟨_, he⟩ | ⟨hlt, ⟨x, hx, hname, he⟩ | ⟨x, _, _, he⟩ |
    ⟨hk, ⟨k, _, he⟩ | ⟨hn, he⟩⟩⟩
  all_goals rw [he] at hi; cases hi
  · exact ⟨hlt, .inl ⟨⟨x, hx, hname⟩, rfl⟩⟩
  · exact ⟨hlt, .inr (adds_enter hk hn)⟩

/-- In a consistent registry, which records are refused and with which error. -/
theorem Consistent.insert_eq_error_iff (hg : g.Consistent) {e : NamingError} :
    g.insert r = .error e ↔
      r.kind ≤ untyped ∧ e = .reserved r.kind ∨
      untyped < r.kind ∧
        (∃ x, g.get? r.kind = some x ∧ x.name ≠ r.name ∧ e = .taken r.kind x.name) ∨
      untyped < r.kind ∧ g.get? r.kind = none ∧
        ∃ x, g.get? x.kind = some x ∧ lowercase x.name = lowercase r.name ∧
          e = .nameTaken r.name x.kind := by
  constructor
  · intro hi
    rcases insert_cases g r with ⟨hle, he⟩ | ⟨hlt, ⟨x, _, _, he⟩ | ⟨x, hx, hname, he⟩ |
      ⟨hk, ⟨k, hn, he⟩ | ⟨_, he⟩⟩⟩
    all_goals rw [he] at hi; cases hi
    · exact .inl ⟨hle, rfl⟩
    · exact .inr (.inl ⟨hlt, x, hx, hname, rfl⟩)
    · rcases (hg.names_iff _ k).mp hn with ⟨x, hx, hname⟩
      have hkind := hg.kind_eq k x hx
      subst hkind
      exact .inr (.inr ⟨hlt, hk, x, hx, hname, rfl⟩)
  · rintro (⟨hle, rfl⟩ | ⟨hlt, x, hx, hname, rfl⟩ | ⟨hlt, hk, x, hx, hname, rfl⟩)
    · unfold insert
      rw [if_pos hle]
    · unfold insert
      rw [if_neg (Int32.not_le.mpr hlt), show g.rules[r.kind]? = some x from hx]
      exact if_neg hname
    · have hn : g.names[lowercase r.name]? = some x.kind :=
        (hg.names_iff _ _).mpr ⟨x, hx, hname⟩
      unfold insert
      rw [if_neg (Int32.not_le.mpr hlt), show g.rules[r.kind]? = none from hk]
      simp only [hn]

/-! ## Inserting in place -/

/-- A call that changes one registry. An error ends it, with the registry as it is by then. -/
abbrev InPlace := EStateM NamingError Registry

/-- How a call in place ends that makes what another makes, or else leaves the registry alone. -/
def ending (g : Registry) : Except NamingError Registry → EStateM.Result NamingError Registry Unit
  | .ok h => .ok () h
  | .error e => .error e g

namespace InPlace

/-- Enters a record, its name into one map and then the record into the other. -/
def insert (r : RuleRecord) : InPlace Unit := do
  if r.kind ≤ untyped then throw (.reserved r.kind)
  else
    match (← getThe Registry).rules[r.kind]? with
    | some existing =>
      if existing.name = r.name then return () else throw (.taken r.kind existing.name)
    | none =>
      let key := lowercase r.name
      match (← getThe Registry).names[key]? with
      | some existing => throw (.nameTaken r.name existing)
      | none =>
        modifyThe Registry fun g => { g with names := g.names.insert key r.kind }
        modifyThe Registry fun g => { g with rules := g.rules.insert r.kind r }

theorem run_insert (g : Registry) (r : RuleRecord) :
    (insert r).run g = g.ending (g.insert r) := by
  unfold insert Registry.insert
  by_cases hle : r.kind ≤ untyped
  · simp only [if_pos hle]
    rfl
  simp only [if_neg hle]
  -- each look reads the registry as it was
  show (match g.rules[r.kind]? with
    | some x => if x.name = r.name then pure () else throw (.taken r.kind x.name)
    | none => _ : InPlace Unit).run g = _
  cases g.rules[r.kind]? with
  | some x =>
    by_cases hname : x.name = r.name
    · simp only [if_pos hname]
      rfl
    · simp only [if_neg hname]
      rfl
  | none =>
    show (match g.names[lowercase r.name]? with
      | some k => throw (.nameTaken r.name k)
      | none => _ : InPlace Unit).run g = _
    cases g.names[lowercase r.name]? with
    | some k => rfl
    | none => rfl

end InPlace

/-! ## Runs of calls -/

/-- A call that enters a record or the record of a rule. -/
inductive Call where
  | insert (r : RuleRecord)
  | insertRule (r : Rule)

namespace Call

/-- The record that a call is about. -/
def record : Call → RuleRecord
  | insert r => r
  | insertRule r => .of r

/-- What a call answers. -/
def outcome : Call → Registry → Except NamingError Registry
  | insert r, g => g.insert r
  | insertRule r, g => g.insertRule r

/-- What a call does to the registry. -/
def inPlace (c : Call) : InPlace Unit :=
  InPlace.insert c.record

/-- The registry in which a call ends, accepted or refused. -/
def run (c : Call) (g : Registry) : Registry :=
  match c.inPlace.run g with
  | .ok _ h => h
  | .error _ h => h

theorem outcome_eq (c : Call) (g : Registry) : c.outcome g = g.insert c.record := by
  cases c <;> rfl

theorem run_inPlace (c : Call) (g : Registry) : c.inPlace.run g = g.ending (c.outcome g) := by
  rw [outcome_eq]
  exact InPlace.run_insert g c.record

theorem run_of_error {c : Call} {e : NamingError} (he : c.outcome g = .error e) :
    c.run g = g := by
  rw [run, run_inPlace, he]
  rfl

theorem run_of_ok {c : Call} (hh : c.outcome g = .ok h) : c.run g = h := by
  rw [run, run_inPlace, hh]
  rfl

/-- A call leaves the registry as it is or adds its record, which has a positive kind. -/
theorem run_cases (c : Call) (g : Registry) :
    c.run g = g ∨ untyped < c.record.kind ∧ g.Adds c.record (c.run g) := by
  cases ho : c.outcome g with
  | error e => exact .inl (run_of_error ho)
  | ok h =>
    rw [run_of_ok ho]
    rw [outcome_eq] at ho
    rcases insert_eq_ok ho with ⟨hlt, ⟨_, rfl⟩ | ha⟩
    · exact .inl rfl
    · exact .inr ⟨hlt, ha⟩

end Call

/-- Registries that calls lead to. -/
inductive Reachable (start : Registry) : Registry → Prop
  | refl : Reachable start start
  | call {g : Registry} (h : Reachable start g) (c : Call) : Reachable start (c.run g)

namespace Reachable

theorem consistent (hs : start.Consistent) (hg : Reachable start g) : g.Consistent := by
  induction hg with
  | refl => exact hs
  | @call g _ c ih =>
    rcases c.run_cases g with heq | ⟨_, ha⟩
    · rw [heq]
      exact ih
    · exact ha.consistent ih

/-- A record that is stored stays, and what comes besides has a positive kind. -/
theorem keeps (hg : Reachable start g) : (∀ k r, start.get? k = some r → g.get? k = some r) ∧
    ∀ k ≤ untyped, g.get? k = start.get? k := by
  induction hg with
  | refl => exact ⟨fun _ _ hr => hr, fun _ _ => rfl⟩
  | @call g _ c ih =>
    rcases c.run_cases g with heq | ⟨hlt, ha⟩
    · rw [heq]
      exact ih
    · refine ⟨fun k r hr => ha.get?_of_some (ih.1 k r hr), fun k hk => ?_⟩
      rw [ha.get?_eq, if_neg, ih.2 k hk]
      rintro rfl
      exact Int32.not_le.mpr hlt hk

/-- From an empty registry or the builtin one, every run of calls leads to a consistent registry in
which only builtin rules have kinds from zero down. It refuses a record exactly if its kind is from
zero down, or has a record with another name, or is new and has a name that another record has,
whatever its case. A call in place answers alike and ends in the registry that `insert` makes; if it
is refused it has changed nothing, nor has it when a kind comes again under its exact name. Any other
record is added, alone, and stays as it is for good. -/
theorem consistent_and_insert (hs : start = {} ∨ start = builtin) (hg : Reachable start g) :
    g.Consistent ∧
    (∀ k r, k ≤ untyped → g.get? k = some r →
      start = builtin ∧ ∃ b : Builtin, b.kind = k ∧ r = .of (.builtin b)) ∧
    (∀ r e, g.insert r = .error e ↔
      r.kind ≤ untyped ∧ e = .reserved r.kind ∨
      untyped < r.kind ∧
        (∃ x, g.get? r.kind = some x ∧ x.name ≠ r.name ∧ e = .taken r.kind x.name) ∨
      untyped < r.kind ∧ g.get? r.kind = none ∧
        ∃ x, g.get? x.kind = some x ∧ lowercase x.name = lowercase r.name ∧
          e = .nameTaken r.name x.kind) ∧
    (∀ c : Call, c.inPlace.run g = g.ending (c.outcome g)) ∧
    (∀ c : Call, ∀ e, c.outcome g = .error e → c.run g = g) ∧
    (∀ c : Call, ∀ h, c.outcome g = .ok h → c.run g = h) ∧
    (∀ r h, g.insert r = .ok h →
      (∃ x, g.get? r.kind = some x ∧ x.name = r.name) ∧ h = g ∨ g.Adds r h) ∧
    ∀ h, Reachable g h → ∀ k r, g.get? k = some r → h.get? k = some r := by
  have hstart : start.Consistent := by
    rcases hs with rfl | rfl
    · exact consistent_empty
    · exact builtin_spec.1
  have hc := consistent hstart hg
  refine ⟨hc, fun k r hk hr => ?_, fun r e => hc.insert_eq_error_iff,
    fun c => c.run_inPlace g, fun c e => Call.run_of_error, fun c h => Call.run_of_ok,
    fun r h hi => (insert_eq_ok hi).2, fun h hh => hh.keeps.1⟩
  rw [hg.keeps.2 k hk] at hr
  rcases hs with rfl | rfl
  · rw [show get? {} k = none from Std.TreeMap.getElem?_emptyc] at hr
    cases hr
  · exact ⟨rfl, builtin_spec.2 k r hr⟩

/-- Two kinds are named beside the builtin rules, one of them by a rule. Then a builtin name in
capitals is refused, and so are a known kind under another spelling of its name, a reserved kind, and
the new name for a third kind. -/
theorem consistent_and_insert_spelling :
    let c := Call.insert { kind := 1, name := "Foo" }
    let d := Call.insertRule (.literal 2 "bar")
    let g := d.run (c.run builtin)
    g.Consistent ∧ g.get? 1 = some { kind := 1, name := "Foo" } ∧
      g.get? 2 = some (.of (.literal 2 "bar")) ∧
      g.insert { kind := 4, name := "FIELD" } = .error (.nameTaken "FIELD" (-5)) ∧
      g.insert { kind := 1, name := "foo" } = .error (.taken 1 "Foo") ∧
      g.insert { kind := -1, name := "EndOfData" } = .error (.reserved (-1)) ∧
      g.insert { kind := 3, name := "fOO" } = .error (.nameTaken "fOO" 1) ∧
      (Call.insert { kind := 3, name := "fOO" }).inPlace.run g =
        .error (.nameTaken "fOO" 1) g ∧
      (Call.insert { kind := 3, name := "fOO" }).run g = g := by
  intro c d g
  have hg : Reachable builtin g := (refl.call c).call d
  have h1 : g.get? 1 = some c.record := by decide +kernel
  have h2 : g.get? 2 = some (.of (.literal 2 "bar")) := by decide +kernel
  have h3 : g.get? 3 = none := by decide +kernel
  have h4 : g.get? 4 = none := by decide +kernel
  have hfield : g.get? (-5) = some (.of (.builtin .field)) := by decide +kernel
  have hfold : lowercase "Field" = lowercase "FIELD" := by decide +kernel
  have hupper : lowercase "Foo" = lowercase "fOO" := by decide +kernel
  rcases hg.consistent_and_insert (.inr rfl) with ⟨hc, _, hrefused, hplace, hsame, _⟩
  have hfoo : g.insert { kind := 3, name := "fOO" } = .error (.nameTaken "fOO" 1) :=
    (hrefused _ _).mpr (.inr (.inr ⟨by decide, h3, c.record, h1, hupper, rfl⟩))
  have hends : (Call.insert { kind := 3, name := "fOO" }).inPlace.run g =
      .error (.nameTaken "fOO" 1) g := by
    rw [hplace, Call.outcome, hfoo, ending]
  refine ⟨hc, h1, h2, ?_, ?_, ?_, hfoo, hends, hsame (.insert _) _ hfoo⟩
  · exact (hrefused _ _).mpr (.inr (.inr ⟨by decide, h4, .of (.builtin .field), hfield, hfold, rfl⟩))
  · exact (hrefused _ _).mpr (.inr (.inl ⟨by decide, c.record, h1, by decide, rfl⟩))
  · exact (hrefused _ _).mpr (.inl ⟨by decide, rfl⟩)

end Reachable

end PegKit.Registry
