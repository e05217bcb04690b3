import Mathlib.Data.PFun

/-! # Loops without a bound

A loop goes from one state to the next until one of its rounds returns.

* `Unbounded.loop` is the loop of given rounds, with no result where it goes on forever.
* `loop_of_done` and `loop_of_next` say what one round makes of it.
* `Bounds.loop_eq`: a run with a bound has come to the end of the loop when one more round would add
  nothing.
-/

namespace PegKit.Unbounded

/-- The loop whose rounds return something or go on from a new state. It has a result exactly if
it comes to a round that returns, with every round on the way ended. -/
noncomputable def loop {σ ρ : Type} (round : σ → Option (ρ ⊕ σ)) (a : σ) : Option ρ :=
  @Part.toOption ρ (PFun.fix (fun a => (round a : Part (ρ ⊕ σ))) a) (Classical.propDecidable _)

variable {σ ρ : Type} {round : σ → Option (ρ ⊕ σ)} {a a' : σ} {b : ρ}

theorem loop_eq_some_iff :
    loop round a = some b ↔ b ∈ PFun.fix (fun a => (round a : Part (ρ ⊕ σ))) a :=
  @Part.toOption_eq_some_iff ρ _ (Classical.propDecidable _) b

theorem loop_of_done (h : round a = some (.inl b)) : loop round a = some b :=
  loop_eq_some_iff.mpr (PFun.fix_stop (Part.mem_ofOption.mpr h))

theorem loop_of_next (h : round a = some (.inr a')) : loop round a = loop round a' := by
  have hstep := PFun.fix_fwd_eq (f := fun a => (round a : Part (ρ ⊕ σ)))
    (Part.mem_ofOption.mpr h : .inr a' ∈ (round a : Part (ρ ⊕ σ)))
  ext b
  rw [loop_eq_some_iff, loop_eq_some_iff, hstep]

/-- The run `run n` makes at most `n` rounds, each of which adds to what it has put out. -/
structure Bounds (round : σ → Option (ρ ⊕ σ)) (out : σ → ρ) (run : Nat → σ → ρ) : Prop where
  zero : ∀ a, run 0 a = out a
  succ : ∀ a, (round a = some (.inl (out a)) ∧ ∀ n, run n a = out a) ∨
    ∃ a', round a = some (.inr a') ∧ out a' ≠ out a ∧ ∀ n, run (n + 1) a = run n a'

theorem Bounds.loop_eq {out : σ → ρ} {run : Nat → σ → ρ} (h : Bounds round out run) {n : Nat}
    (hn : run (n + 1) a = run n a) : loop round a = some (run n a) := by
  -- on the bound, which goes down with each round
  induction n generalizing a with
  | zero =>
    rcases h.succ a with ⟨hdone, hrun⟩ | ⟨a', _, hadd, hrun⟩
    · rw [loop_of_done hdone, hrun]
    · rw [hrun, h.zero, h.zero] at hn
      exact absurd hn hadd
  | succ n ih =>
    rcases h.succ a with ⟨hdone, hrun⟩ | ⟨a', hnext, _, hrun⟩
    · rw [loop_of_done hdone, hrun]
    · rw [hrun, hrun] at hn
      rw [loop_of_next hnext, ih hn, hrun]

end PegKit.Unbounded
