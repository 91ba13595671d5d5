import Zkrnl32.Machine.Loop

/-!
# Two Runs Side by Side

`Simulates R x y`: from related states the code `x` over `σ` and the code `y` over `τ` end in the
same way, with the same value or for the same reason, and again in related states.

The rules follow the code: related pieces are joined by `bind`, `ite` and the two loops.  What is
left to show is that the pieces which touch the state keep the relation (`simulates_of_run`).
-/

namespace Zkrnl32.Machine

variable {σ τ α β ι : Type} {R : σ → τ → Prop}

/-- Two ends of a run: the same value or the same reason, in related states. -/
inductive Agree (R : σ → τ → Prop) :
    EStateM.Result Stop σ α → EStateM.Result Stop τ α → Prop where
  | ok {a : α} {s : σ} {t : τ} : R s t → Agree R (.ok a s) (.ok a t)
  | error {e : Stop} {s : σ} {t : τ} : R s t → Agree R (.error e s) (.error e t)

/-- Related states stay related, and the runs end alike. -/
structure Simulates (R : σ → τ → Prop) (x : Exec σ α) (y : Exec τ α) : Prop where
  agree : ∀ s t, R s t → Agree R (x s) (y t)

/-- Two steps that return from related states. -/
theorem simulates_of_run {x : Exec σ α} {y : Exec τ α}
    (h : ∀ s t, R s t → ∃ a s' t', x s = .ok a s' ∧ y t = .ok a t' ∧ R s' t') :
    Simulates R x y := by
  constructor
  intro s t hR
  obtain ⟨a, s', t', hx, hy, hR'⟩ := h s t hR
  rw [hx, hy]
  exact .ok hR'

theorem simulates_lift (x : Checked α) :
    Simulates R (liftM x : Exec σ α) (liftM x : Exec τ α) := by
  constructor
  intro s t hR
  cases x with
  | ok a => exact .ok hR
  | error e => exact .error hR

theorem simulates_pure (a : α) : Simulates R (pure a : Exec σ α) (pure a : Exec τ α) :=
  ⟨fun _ _ hR => .ok hR⟩

theorem simulates_throw (e : Stop) : Simulates R (throw e : Exec σ α) (throw e : Exec τ α) :=
  ⟨fun _ _ hR => .error hR⟩

namespace Simulates

theorem bind {x : Exec σ α} {y : Exec τ α} {f : α → Exec σ β} {g : α → Exec τ β}
    (h : Simulates R x y) (hfg : ∀ a, Simulates R (f a) (g a)) :
    Simulates R (x >>= f) (y >>= g) := by
  constructor
  intro s t hR
  have hagree := h.agree s t hR
  rw [run_bind, run_bind]
  generalize x s = rx at hagree ⊢
  generalize y t = ry at hagree ⊢
  cases hagree with
  | ok hR' => exact (hfg _).agree _ _ hR'
  | error hR' => exact .error hR'

/-- A stateless step, whose value both sides share. -/
theorem lift_bind (x : Checked α) {f : α → Exec σ β} {g : α → Exec τ β}
    (h : ∀ a, x = .ok a → Simulates R (f a) (g a)) :
    Simulates R ((liftM x : Exec σ α) >>= f) ((liftM x : Exec τ α) >>= g) := by
  cases x with
  | ok a => exact h a rfl
  | error e => exact simulates_throw e

theorem ite {c : Prop} [Decidable c] {x x' : Exec σ α} {y y' : Exec τ α}
    (h : c → Simulates R x y) (h' : ¬ c → Simulates R x' y') :
    Simulates R (if c then x else x') (if c then y else y') := by
  split
  next hc => exact h hc
  next hc => exact h' hc

/-- Loops over one list. -/
theorem forM {body : α → Exec σ Unit} {body' : α → Exec τ Unit} (as : List α)
    (h : ∀ a ∈ as, Simulates R (body a) (body' a)) :
    Simulates R (forM as body) (forM as body') := by
  induction as with
  | nil => exact simulates_pure ()
  | cons a as ih =>
    rw [List.forM_cons, List.forM_cons]
    exact (h a List.mem_cons_self).bind fun _ => ih fun b hb => h b (List.mem_cons_of_mem a hb)

/-- Loops over one iterator. -/
theorem forEach {next : Next ι α} {body : α → Exec σ Unit} {body' : α → Exec τ Unit}
    (h : ∀ a, Simulates R (body a) (body' a)) (fuel : Nat) (it : ι) :
    Simulates R (forEach next body fuel it) (forEach next body' fuel it) := by
  induction fuel generalizing it with
  | zero => exact simulates_throw .outOfFuel
  | succ fuel ih =>
    refine (simulates_lift (next it)).bind fun item => ?_
    obtain ⟨item, it'⟩ := item
    cases item with
    | none => exact simulates_pure ()
    | some a => exact (h a).bind fun _ => ih it'

/-- What the run of `x` says about the run of `y`. -/
theorem of_ok {x : Exec σ α} {y : Exec τ α} {s s' : σ} {t : τ} {a : α} (h : Simulates R x y)
    (hR : R s t) (hx : x s = .ok a s') : ∃ t', y t = .ok a t' ∧ R s' t' := by
  have hagree := h.agree s t hR
  rw [hx] at hagree
  generalize y t = ry at hagree ⊢
  cases hagree with
  | ok hR' => exact ⟨_, rfl, hR'⟩

end Simulates

end Zkrnl32.Machine
