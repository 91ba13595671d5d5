import Mathlib.Logic.Relation
import Mathlib.Tactic

/-!
# Runs of a Transition System

Two ways to speak about all runs of a relation `step`, which may offer several next states.

- `Leads step P s`: whatever choices are made, a run from `s` is never stuck before it meets `P`,
  and it does meet `P`.  Proofs go forward, one step at a time (`leads_of_step`), and are joined
  by `Leads.trans`.
- `always_of_invariant`: what every step keeps holds in every state that can be reached.
-/

namespace Zkrnl32.Machine

variable {σ : Type} {step : σ → σ → Prop} {P Q : σ → Prop}

/-- Every run from a state meets `P`. -/
inductive Leads (step : σ → σ → Prop) (P : σ → Prop) : σ → Prop where
  /-- The state itself meets `P`. -/
  | here {s : σ} : P s → Leads step P s
  /-- There is a next state, and each of them leads on. -/
  | next {s : σ} : (∃ s', step s s') → (∀ s', step s s' → Leads step P s') → Leads step P s

/-- A state whose only successor leads on. -/
theorem leads_of_step {s s' : σ} (hstep : step s s') (hunique : ∀ t, step s t → t = s')
    (h : Leads step P s') : Leads step P s :=
  .next ⟨s', hstep⟩ fun t ht => hunique t ht ▸ h

theorem Leads.trans {s : σ} (h : Leads step Q s) (hnext : ∀ t, Q t → Leads step P t) :
    Leads step P s := by
  induction h with
  | here hQ => exact hnext _ hQ
  | next hex _ ih => exact .next hex ih

theorem Leads.mono {s : σ} (h : Leads step Q s) (hPQ : ∀ t, Q t → P t) : Leads step P s :=
  h.trans fun t ht => .here (hPQ t ht)

/-- Something that meets `P` can be reached: `Leads` is not empty of runs. -/
theorem Leads.exists_reachable {s : σ} (h : Leads step P s) :
    ∃ t, Relation.ReflTransGen step s t ∧ P t := by
  induction h with
  | here hP => exact ⟨_, .refl, hP⟩
  | next hex _ ih =>
    obtain ⟨s', hstep⟩ := hex
    obtain ⟨t, hreach, hP⟩ := ih s' hstep
    exact ⟨t, .head hstep hreach, hP⟩

/-- What every step keeps holds in every reachable state. -/
theorem always_of_invariant (hstep : ∀ s s', P s → step s s' → P s') {s t : σ} (hs : P s)
    (h : Relation.ReflTransGen step s t) : P t := by
  induction h with
  | refl => exact hs
  | tail _ hlast ih => exact hstep _ _ ih hlast

end Zkrnl32.Machine
