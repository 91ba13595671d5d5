import Zkrnl32.Machine.Loop

/-!
# Effects That Every Run Has

`HasEffect I x`: whichever way the code `x` ends, the states before and behind it are related by
`I`.  The rules follow the code, for a relation `I` that is reflexive and transitive.
-/

namespace Zkrnl32.Machine

variable {σ τ α β : Type} {I : σ → σ → Prop}

/-- Every run of `x`, returning or not, is related by `I`. -/
structure HasEffect (I : σ → σ → Prop) (x : Exec σ α) : Prop where
  ends : ∀ s, Ends (x s) (fun _ s' => I s s') fun _ s' => I s s'

theorem HasEffect.of_ok {x : Exec σ α} (h : HasEffect I x) {s s' : σ} {a : α}
    (hrun : x s = .ok a s') : I s s' :=
  (h.ends s).of_eq_ok hrun

theorem hasEffect_pure [Std.Refl I] (a : α) : HasEffect I (pure a : Exec σ α) :=
  ⟨fun s => Std.Refl.refl s⟩

theorem hasEffect_get [Std.Refl I] : HasEffect I (get : Exec σ σ) :=
  ⟨fun s => Std.Refl.refl s⟩

theorem hasEffect_lift [Std.Refl I] (x : Checked α) : HasEffect I (liftM x : Exec σ α) := by
  constructor
  intro s
  cases x with
  | ok a => exact Std.Refl.refl s
  | error e => exact Std.Refl.refl s

theorem HasEffect.bind [IsTrans σ I] {x : Exec σ α} {f : α → Exec σ β} (hx : HasEffect I x)
    (hf : ∀ a, HasEffect I (f a)) : HasEffect I (x >>= f) := by
  constructor
  intro s
  refine Ends.bind ((hx.ends s).mono (fun a t ht => ?_) fun _ _ ht => ht)
  exact ((hf a).ends t).mono (fun _ _ hu => IsTrans.trans _ _ _ ht hu) fun _ _ hu =>
    IsTrans.trans _ _ _ ht hu

theorem HasEffect.ite {c : Prop} [Decidable c] {x y : Exec σ α} (hx : HasEffect I x)
    (hy : HasEffect I y) : HasEffect I (if c then x else y) := by
  split
  · exact hx
  · exact hy

theorem hasEffect_forM [Std.Refl I] [IsTrans σ I] {body : α → Exec σ Unit}
    (h : ∀ a, HasEffect I (body a)) (as : List α) : HasEffect I (forM as body) := by
  induction as with
  | nil => exact hasEffect_pure ()
  | cons a as ih =>
    rw [List.forM_cons]
    exact (h a).bind fun _ => ih

/-- Code over a part of the state. -/
theorem HasEffect.zoom {J : τ → τ → Prop} {view : σ → τ} {put : τ → σ → σ} {x : Exec τ α}
    (h : HasEffect J x) (hput : ∀ s t, J (view s) t → I s (put t s)) :
    HasEffect I (Exec.zoom view put x) := by
  constructor
  intro s
  have hx := h.ends (view s)
  unfold Exec.zoom
  cases hrun : x (view s) with
  | ok a t => exact hput s t (hx.of_eq_ok hrun)
  | error e t => exact hput s t (hx.of_eq_error hrun)

end Zkrnl32.Machine
