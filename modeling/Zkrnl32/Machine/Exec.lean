import Mathlib.Tactic

/-!
# Checked Execution

The execution model of Rust code on a fixed-width target, independent of any
particular program.

## Outcomes

Code either returns, or stops.  It stops by a trapped overflow, an index outside
its array, a failed debug assertion or an explicit panic with its message.  A loop
whose length is not known in advance is run with fuel, and `Stop.outOfFuel` says
that it has not returned *yet*.

## Layers

- `Checked α`: code without state (`Except Stop`).
- `Exec σ α`: code over a state `σ` (`EStateM Stop σ`).  The state at the moment
  of a stop is kept, so that a claim about a half-finished run can be stated.

Arithmetic takes the build `Profile`: `dev` traps an overflow, `release` wraps.

`Ends` states what holds at the end of a run, whichever way it ends.
-/

namespace Zkrnl32.Machine

variable {σ τ α β : Type}

/-! ## Outcomes and profiles -/

/-- The two Cargo profiles: `dev` traps on overflow and runs debug assertions,
    `release` wraps around and skips them. -/
inductive Profile where
  | dev
  | release
  deriving DecidableEq, Repr

/-- Why a computation did not return. -/
inductive Stop where
  /-- Arithmetic overflow, trapped in the `dev` profile. -/
  | overflow
  /-- Array or slice index past the end. -/
  | outOfBounds
  /-- A `debug_assert!` failed. -/
  | debugAssertion
  /-- Explicit panic, with its message. -/
  | panicked (message : String)
  /-- Not a stop of the program: the loop needs more fuel than it was given. -/
  | outOfFuel
  deriving DecidableEq, Repr

/-- Stateless code that may stop. -/
abbrev Checked (α : Type) := Except Stop α

/-- Code over a state `σ` that may stop; a stop keeps the state reached. -/
abbrev Exec (σ α : Type) := EStateM Stop σ α

instance : MonadLift Checked (Exec σ) where
  monadLift x s := match x with
    | .ok a => .ok a s
    | .error e => .error e s

/-- Runs code over a part of the state, reached through `view` and `put`. -/
def Exec.zoom (view : σ → τ) (put : τ → σ → σ) (x : Exec τ α) : Exec σ α := fun s =>
  match x (view s) with
  | .ok a t => .ok a (put t s)
  | .error e t => .error e (put t s)

/-! ## Running `Exec` step by step -/

@[simp] theorem run_pure (a : α) (s : σ) : (pure a : Exec σ α) s = .ok a s := rfl

@[simp] theorem run_throw (e : Stop) (s : σ) : (throw e : Exec σ α) s = .error e s := rfl

@[simp] theorem run_get (s : σ) : (get : Exec σ σ) s = .ok s s := rfl

@[simp] theorem run_modify (f : σ → σ) (s : σ) :
    (modify f : Exec σ PUnit) s = .ok ⟨⟩ (f s) := rfl

@[simp] theorem run_lift_ok (a : α) (s : σ) :
    (liftM (Except.ok a : Checked α) : Exec σ α) s = .ok a s := rfl

@[simp] theorem run_lift_error (e : Stop) (s : σ) :
    (liftM (Except.error e : Checked α) : Exec σ α) s = .error e s := rfl

theorem run_bind (x : Exec σ α) (f : α → Exec σ β) (s : σ) :
    (x >>= f) s = match x s with
      | .ok a t => f a t
      | .error e t => .error e t := by
  simp only [bind, EStateM.bind]
  cases x s <;> rfl

/-- A bind whose first part returns continues with the second. -/
theorem run_bind_of_ok {x : Exec σ α} {f : α → Exec σ β} {s t : σ} {a : α}
    (h : x s = .ok a t) : (x >>= f) s = f a t := by
  rw [run_bind, h]

theorem run_get_bind (f : σ → Exec σ β) (s : σ) : (get >>= f) s = f s s := rfl

theorem run_modify_bind (g : σ → σ) (f : PUnit → Exec σ β) (s : σ) :
    (modify g >>= f) s = f ⟨⟩ (g s) := rfl

theorem run_lift_bind {x : Checked α} {a : α} (h : x = .ok a) (f : α → Exec σ β) (s : σ) :
    ((liftM x : Exec σ α) >>= f) s = f a s :=
  run_bind_of_ok (h ▸ run_lift_ok a s)

/-- A bind whose first part stops, stops. -/
theorem run_bind_of_error {x : Exec σ α} {f : α → Exec σ β} {s t : σ} {e : Stop}
    (h : x s = .error e t) : (x >>= f) s = .error e t := by
  rw [run_bind, h]

/-- A bind stops for a reason only if one of its parts does. -/
theorem bind_ne_error {x : Exec σ α} {f : α → Exec σ β} {s u : σ} {e : Stop}
    (hx : ∀ t, x s ≠ .error e t) (hf : ∀ a t, x s = .ok a t → f a t ≠ .error e u) :
    (x >>= f) s ≠ .error e u := by
  rw [run_bind]
  cases hrun : x s with
  | ok a t => exact hf a t hrun
  | error e' t =>
    -- The bind stops where its first part did, so the two reasons are one.
    intro h
    cases h
    exact hx u hrun

/-- Inversion: a bind that returns went through a returning first part. -/
theorem bind_eq_ok {x : Exec σ α} {f : α → Exec σ β} {s u : σ} {b : β} :
    (x >>= f) s = .ok b u ↔ ∃ a t, x s = .ok a t ∧ f a t = .ok b u := by
  rw [run_bind]
  cases x s <;> simp

/-- A lifted stateless computation returns exactly when it is `ok`, and leaves the
    state alone. -/
theorem lift_eq_ok {x : Checked α} {s t : σ} {a : α} :
    (liftM x : Exec σ α) s = .ok a t ↔ x = .ok a ∧ t = s := by
  cases x <;> simp [eq_comm, and_comm]

theorem lift_eq_error {x : Checked α} {s t : σ} {e : Stop} :
    (liftM x : Exec σ α) s = .error e t ↔ x = .error e ∧ t = s := by
  cases x <;> simp [eq_comm, and_comm]

/-- Inversion for stateless binds. -/
theorem checked_bind_eq_ok {x : Checked α} {f : α → Checked β} {b : β} :
    x >>= f = .ok b ↔ ∃ a, x = .ok a ∧ f a = .ok b := by
  cases x <;> simp [bind, Except.bind]

@[simp] theorem checked_ok_bind (a : α) (f : α → Checked β) :
    (Except.ok a : Checked α) >>= f = f a := rfl

/-- A zoomed computation that returns did so on its part of the state. -/
theorem zoom_eq_ok {view : σ → τ} {put : τ → σ → σ} {x : Exec τ α} {s s' : σ} {a : α} :
    Exec.zoom view put x s = .ok a s' ↔ ∃ t, x (view s) = .ok a t ∧ s' = put t s := by
  unfold Exec.zoom
  cases x (view s) <;> simp [eq_comm]

/-! ## Both outcomes -/

/-- What holds at the end of a run: `Q` of the value and the state it returns with, or `E` of the
    reason and the state it stops in. -/
def Ends (r : EStateM.Result Stop σ α) (Q : α → σ → Prop) (E : Stop → σ → Prop) : Prop :=
  match r with
  | .ok a s => Q a s
  | .error e s => E e s

section Ends

variable {Q : α → σ → Prop} {E : Stop → σ → Prop}

theorem ends_of_ok {r : EStateM.Result Stop σ α} {a : α} {s : σ} (h : r = .ok a s) (hQ : Q a s) :
    Ends r Q E := by
  rw [h]
  exact hQ

theorem ends_of_error {r : EStateM.Result Stop σ α} {e : Stop} {s : σ} (h : r = .error e s)
    (hE : E e s) : Ends r Q E := by
  rw [h]
  exact hE

theorem ends_iff {r : EStateM.Result Stop σ α} :
    Ends r Q E ↔ (∀ a s, r = .ok a s → Q a s) ∧ ∀ e s, r = .error e s → E e s := by
  cases r with
  | ok a s =>
    refine ⟨fun h => ⟨?_, nofun⟩, fun h => h.1 a s rfl⟩
    rintro _ _ ⟨⟩
    exact h
  | error e s =>
    refine ⟨fun h => ⟨nofun, ?_⟩, fun h => h.2 e s rfl⟩
    rintro _ _ ⟨⟩
    exact h

theorem Ends.of_eq_ok {r : EStateM.Result Stop σ α} {a : α} {s : σ} (h : Ends r Q E)
    (hr : r = .ok a s) : Q a s :=
  (ends_iff.mp h).1 a s hr

theorem Ends.of_eq_error {r : EStateM.Result Stop σ α} {e : Stop} {s : σ} (h : Ends r Q E)
    (hr : r = .error e s) : E e s :=
  (ends_iff.mp h).2 e s hr

/-- A run without an admitted stop returns. -/
theorem Ends.exists_ok {r : EStateM.Result Stop σ α} (h : Ends r Q fun _ _ => False) :
    ∃ a s, r = .ok a s ∧ Q a s := by
  cases r with
  | ok a s => exact ⟨a, s, rfl, h⟩
  | error e s => exact h.elim

theorem Ends.mono {r : EStateM.Result Stop σ α} {Q' : α → σ → Prop} {E' : Stop → σ → Prop}
    (h : Ends r Q E) (hQ : ∀ a s, Q a s → Q' a s) (hE : ∀ e s, E e s → E' e s) :
    Ends r Q' E' := by
  cases r with
  | ok a s => exact hQ a s h
  | error e s => exact hE e s h

/-- The rule of sequencing: a stop of either part is a stop of the whole. -/
theorem Ends.bind {x : Exec σ β} {f : β → Exec σ α} {s : σ}
    (h : Ends (x s) (fun b t => Ends (f b t) Q E) E) : Ends ((x >>= f) s) Q E := by
  rw [run_bind]
  cases hrun : x s with
  | ok b t =>
    rw [hrun] at h
    exact h
  | error e t =>
    rw [hrun] at h
    exact h

end Ends

/-! ## Fixed-width arithmetic -/

/-- What an overflowing operation does: trap, or go on with the wrapped value. -/
def Profile.onOverflow (p : Profile) (wrapped : α) : Checked α :=
  match p with
  | .dev => .error .overflow
  | .release => .ok wrapped

/-- `a + b` at width `w`. -/
def add (p : Profile) (w a b : Nat) : Checked Nat :=
  if a + b < 2 ^ w then .ok (a + b) else p.onOverflow ((a + b) % 2 ^ w)

/-- `a - b` at width `w`. -/
def sub (p : Profile) (w a b : Nat) : Checked Nat :=
  if b ≤ a then .ok (a - b) else p.onOverflow ((a + 2 ^ w - b) % 2 ^ w)

/-- `a * b` at width `w`. -/
def mul (p : Profile) (w a b : Nat) : Checked Nat :=
  if a * b < 2 ^ w then .ok (a * b) else p.onOverflow (a * b % 2 ^ w)

/-- `x << n`; a shift by the width or more is an overflow, and a wrapping build
    masks the amount. -/
def shl {w : Nat} (p : Profile) (x : BitVec w) (n : Nat) : Checked (BitVec w) :=
  if n < w then .ok (x <<< n) else p.onOverflow (x <<< (n % w))

/-- `x >> n`, with the same rule for the amount. -/
def shr {w : Nat} (p : Profile) (x : BitVec w) (n : Nat) : Checked (BitVec w) :=
  if n < w then .ok (x >>> n) else p.onOverflow (x >>> (n % w))

/-- `a.saturating_add(b)` at width `w`. -/
def saturatingAdd (w a b : Nat) : Nat := min (a + b) (2 ^ w - 1)

/-- `a.div_ceil(b)`. -/
def divCeil (a b : Nat) : Nat := if a % b = 0 then a / b else a / b + 1

/-- `debug_assert!(c)`. -/
def debugAssert (p : Profile) (c : Prop) [Decidable c] : Checked Unit :=
  match p with
  | .dev => if c then .ok () else .error .debugAssertion
  | .release => .ok ()

variable {p : Profile} {w a b n : Nat}

theorem add_eq_ok (h : a + b < 2 ^ w) : add p w a b = .ok (a + b) := if_pos h

theorem sub_eq_ok (h : b ≤ a) : sub p w a b = .ok (a - b) := if_pos h

theorem mul_eq_ok (h : a * b < 2 ^ w) : mul p w a b = .ok (a * b) := if_pos h

theorem shl_eq_ok {x : BitVec w} (h : n < w) : shl p x n = .ok (x <<< n) := if_pos h

theorem shr_eq_ok {x : BitVec w} (h : n < w) : shr p x n = .ok (x >>> n) := if_pos h

theorem debugAssert_eq_ok {c : Prop} [Decidable c] (h : c) : debugAssert p c = .ok () := by
  cases p <;> simp [debugAssert, h]

theorem add_ne_outOfFuel (p : Profile) (w a b : Nat) : add p w a b ≠ .error .outOfFuel := by
  unfold add
  split
  · exact fun h => by cases h
  · cases p <;> exact fun h => by cases h

/-- What an addition can return: the sum, or in a wrapping build the sum modulo `2 ^ w`. -/
theorem add_cases {r : Nat} (h : add p w a b = .ok r) :
    a + b < 2 ^ w ∧ r = a + b ∨ 2 ^ w ≤ a + b ∧ p = .release ∧ r = (a + b) % 2 ^ w := by
  unfold add Profile.onOverflow at h
  split at h
  · simp_all
  · cases p <;> simp_all

end Zkrnl32.Machine
