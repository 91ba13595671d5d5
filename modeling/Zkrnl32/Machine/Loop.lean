import Zkrnl32.Machine.Exec

/-!
# Iterators and Loops

Two kinds of loop occur in Rust code: over an iterator whose length is only found
out by calling `next` (run here with fuel), and over a range whose length is known
(run here over the list of its values).

- `Yields`, `Yielded`, `Reaches`: what an iterator does, without any fuel.
- `forEach`, `anyOf`: the fuel-bounded loops, each tied to `Yields`.
- `forM_ends`: the invariant rule of the list loops, for both ways a run ends; the partial and
  the total rule (`forM_invariant`, `forM_total`) are its two special cases.
- `forM_range_ends`, `forM_range_reverse_ends`: the same for a counter that goes up or down.
-/

namespace Zkrnl32.Machine

variable {ι σ α : Type}

/-! ## Iterators -/

/-- One call of an iterator: an item or `None`, and the advanced iterator. -/
abbrev Next (ι α : Type) := ι → Checked (Option α × ι)

/-- `Yields next it as it'`: from `it` the iterator yields exactly `as`, then `None`,
    and is left at `it'`. -/
inductive Yields (next : Next ι α) : ι → List α → ι → Prop where
  | done {it it' : ι} :
      next it = .ok (none, it') → Yields next it [] it'
  | more {it it' it'' : ι} {a : α} {as : List α} :
      next it = .ok (some a, it') → Yields next it' as it'' → Yields next it (a :: as) it''

/-- `Yielded next it a`: some call, counting from `it`, yields `a`. -/
inductive Yielded (next : Next ι α) : ι → α → Prop where
  | here {it it' : ι} {a : α} :
      next it = .ok (some a, it') → Yielded next it a
  | later {it it' : ι} {a b : α} :
      next it = .ok (some b, it') → Yielded next it' a → Yielded next it a

/-- `Reaches next it it'`: some number of yielding calls leads from `it` to `it'`. -/
inductive Reaches (next : Next ι α) (it : ι) : ι → Prop where
  | refl : Reaches next it it
  | step {it' it'' : ι} {a : α} :
      Reaches next it it' → next it' = .ok (some a, it'') → Reaches next it it''

/-- A finished walk yielded exactly the members of its list. -/
theorem Yields.mem_iff {next : Next ι α} {it it' : ι} {as : List α} {a : α}
    (h : Yields next it as it') : a ∈ as ↔ Yielded next it a := by
  induction h with
  | done hnext =>
    -- `next` is a function: it cannot yield where it returned `None`.
    refine ⟨fun hmem => by simp at hmem, fun hy => ?_⟩
    cases hy with
    | here h => simp [hnext] at h
    | later h _ => simp [hnext] at h
  | @more it it₁ it₂ b bs hnext _ ih =>
    rw [List.mem_cons, ih]
    constructor
    · rintro (rfl | hy)
      · exact .here hnext
      · exact .later hnext hy
    · intro hy
      cases hy with
      | here h =>
        rw [hnext] at h
        simp only [Except.ok.injEq, Prod.mk.injEq, Option.some.injEq] at h
        exact Or.inl h.1.symm
      | later h hy' =>
        rw [hnext] at h
        simp only [Except.ok.injEq, Prod.mk.injEq] at h
        exact Or.inr (h.2 ▸ hy')

/-- An iterator yields one list. -/
theorem Yields.unique {next : Next ι α} {it it₁ it₂ : ι} {as bs : List α}
    (h : Yields next it as it₁) (h' : Yields next it bs it₂) : as = bs := by
  induction h generalizing bs with
  | done hnext =>
    cases h' with
    | done => rfl
    | more hnext' => simp [hnext] at hnext'
  | more hnext _ ih =>
    cases h' with
    | done hnext' => simp [hnext] at hnext'
    | more hnext' hrest =>
      rw [hnext] at hnext'
      cases hnext'
      rw [ih hrest]

/-- What a walk yields from a reached iterator, it yields from the start. -/
theorem Reaches.yielded {next : Next ι α} {it it' : ι} {a : α}
    (h : Reaches next it it') (hy : Yielded next it' a) : Yielded next it a := by
  induction h with
  | refl => exact hy
  | step _ hnext ih => exact ih (.later hnext hy)

/-- A yielded item comes from one call at a reached iterator. -/
theorem Yielded.exists_reaches {next : Next ι α} {it : ι} {a : α}
    (h : Yielded next it a) :
    ∃ it' it'', Reaches next it it' ∧ next it' = .ok (some a, it'') := by
  -- Strengthened to any iterator the walk has come from.
  suffices ∀ start, Reaches next start it →
      ∃ it' it'', Reaches next start it' ∧ next it' = .ok (some a, it'') from this it .refl
  induction h with
  | here hnext => exact fun start hr => ⟨_, _, hr, hnext⟩
  | later hnext _ ih => exact fun start hr => ih start (.step hr hnext)

/-! ## Loops over an iterator -/

/-- `for a in it { body(a) }`, with fuel for the calls of `next`. -/
def forEach (next : Next ι α) (body : α → Exec σ Unit) : Nat → ι → Exec σ Unit
  | 0, _ => throw .outOfFuel
  | fuel + 1, it => do
    let (item, it') ← next it
    match item with
    | none => pure ()
    | some a => do
      body a
      forEach next body fuel it'

/-- `it.any(test)`, with fuel for the calls of `next`; stops at the first hit. -/
def anyOf (next : Next ι α) (test : α → Exec σ Bool) : Nat → ι → Exec σ Bool
  | 0, _ => throw .outOfFuel
  | fuel + 1, it => do
    let (item, it') ← next it
    match item with
    | none => pure false
    | some a => do
      let hit ← test a
      if hit then pure true else anyOf next test fuel it'

/-- With enough fuel, a loop over a terminating iterator is the loop over the list of
    what it yields. -/
theorem forEach_eq_forM {next : Next ι α} {body : α → Exec σ Unit} {it it' : ι}
    {as : List α} (h : Yields next it as it') :
    ∀ {fuel : Nat}, as.length < fuel → forEach next body fuel it = forM as body := by
  induction h with
  | done hnext =>
    intro fuel hfuel
    obtain ⟨fuel, rfl⟩ := Nat.exists_eq_succ_of_ne_zero (Nat.ne_of_gt hfuel)
    funext s
    rw [forEach]
    exact run_lift_bind hnext _ s
  | more hnext _ ih =>
    intro fuel hfuel
    obtain ⟨fuel, rfl⟩ := Nat.exists_eq_succ_of_ne_zero (Nat.ne_of_gt (Nat.zero_lt_of_lt hfuel))
    funext s
    rw [forEach, List.forM_cons, ← ih (Nat.lt_of_succ_lt_succ hfuel)]
    exact run_lift_bind hnext _ s

/-- Inversion: a loop that returns walked a terminating iterator. -/
theorem forEach_eq_ok {next : Next ι α} {body : α → Exec σ Unit} {fuel : Nat} {it : ι}
    {s s' : σ} (h : forEach next body fuel it s = .ok () s') :
    ∃ as it', Yields next it as it' ∧ forM as body s = .ok () s' := by
  induction fuel generalizing it s with
  | zero => simp [forEach] at h
  | succ fuel ih =>
    rw [forEach, bind_eq_ok] at h
    obtain ⟨⟨item, it'⟩, t, hlift, hrest⟩ := h
    obtain ⟨hnext, rfl⟩ := lift_eq_ok.mp hlift
    -- What the call returned decides the constructor of `Yields`.
    cases item with
    | none => exact ⟨[], it', .done hnext, hrest⟩
    | some a =>
      obtain ⟨_, u, hbody, hloop⟩ := bind_eq_ok.mp hrest
      obtain ⟨as, it'', hyields, hforM⟩ := ih hloop
      refine ⟨a :: as, it'', .more hnext hyields, ?_⟩
      rw [List.forM_cons]
      exact (run_bind_of_ok hbody).trans hforM

/-- With enough fuel, `any` over a terminating iterator with a pure test is `any` over
    the list of what it yields. -/
theorem anyOf_eq_any {next : Next ι α} {test : α → Exec σ Bool} {t : α → Bool} {s : σ}
    {it it' : ι} {as : List α} (h : Yields next it as it')
    (htest : ∀ a ∈ as, test a s = .ok (t a) s) :
    ∀ {fuel : Nat}, as.length < fuel → anyOf next test fuel it s = .ok (as.any t) s := by
  induction h with
  | done hnext =>
    intro fuel hfuel
    obtain ⟨fuel, rfl⟩ := Nat.exists_eq_succ_of_ne_zero (Nat.ne_of_gt hfuel)
    rw [anyOf]
    exact run_lift_bind hnext _ s
  | @more it it₁ it₂ a as hnext _ ih =>
    intro fuel hfuel
    obtain ⟨fuel, rfl⟩ := Nat.exists_eq_succ_of_ne_zero (Nat.ne_of_gt (Nat.zero_lt_of_lt hfuel))
    have ih' := ih (fun b hb => htest b (List.mem_cons_of_mem _ hb))
      (Nat.lt_of_succ_lt_succ hfuel)
    rw [anyOf, run_lift_bind hnext]
    simp only []
    rw [run_bind_of_ok (htest a List.mem_cons_self), List.any_cons]
    -- A hit ends the loop; the list's `any` stops at the same item.
    cases t a with
    | true => rfl
    | false => simpa using ih'

/-! ## Loops over a list -/

/-- Invariant rule for both outcomes: a step keeps the invariant or stops in `E`, and then so
    does the loop. -/
theorem forM_ends {body : α → Exec σ Unit} (I : List α → σ → Prop) {E : Stop → σ → Prop}
    {as : List α}
    (hstep : ∀ done a s, a ∈ as → I done s → Ends (body a s) (fun _ s' => I (done ++ [a]) s') E)
    {s : σ} (h₀ : I [] s) : Ends (forM as body s) (fun _ s' => I as s') E := by
  -- Generalised to a loop in progress: `done` is behind it, `rest` ahead.
  suffices ∀ rest done s, (∀ a ∈ rest, a ∈ as) → I done s →
      Ends (forM rest body s) (fun _ s' => I (done ++ rest) s') E from
    this as [] s (fun _ ha => ha) h₀
  intro rest
  induction rest with
  | nil =>
    intro done s _ hI
    exact ends_of_ok rfl (by simpa using hI)
  | cons a rest ih =>
    intro done s hsub hI
    rw [List.forM_cons]
    refine Ends.bind ((hstep done a s (hsub a List.mem_cons_self) hI).mono ?_ fun _ _ h => h)
    intro _ t hI'
    simpa using ih (done ++ [a]) t (fun b hb => hsub b (List.mem_cons_of_mem _ hb)) hI'

/-- Partial-correctness rule: an invariant of the processed items that every returning
    step keeps holds after a returning loop. -/
theorem forM_invariant {body : α → Exec σ Unit} (I : List α → σ → Prop) {as : List α}
    (hstep : ∀ done a s s', a ∈ as → I done s → body a s = .ok () s' → I (done ++ [a]) s')
    {s s' : σ} (h₀ : I [] s) (h : forM as body s = .ok () s') : I as s' := by
  -- Nothing is asked of a step that stops.
  have hends := forM_ends I (E := fun _ _ => True) (fun done a s ha hI =>
    ends_iff.mpr ⟨fun _ s' hrun => hstep done a s s' ha hI hrun, fun _ _ _ => trivial⟩) h₀
  exact hends.of_eq_ok h

/-- Total-correctness rule: when every step returns and keeps the invariant, so does the
    loop. -/
theorem forM_total {body : α → Exec σ Unit} (I : List α → σ → Prop) {as : List α}
    (hstep : ∀ done a s, a ∈ as → I done s → ∃ s', body a s = .ok () s' ∧ I (done ++ [a]) s')
    {s : σ} (h₀ : I [] s) : ∃ s', forM as body s = .ok () s' ∧ I as s' := by
  have hends := forM_ends I (E := fun _ _ => False) (fun done a s ha hI => by
    obtain ⟨s', hbody, hI'⟩ := hstep done a s ha hI
    exact ends_of_ok hbody hI') h₀
  obtain ⟨_, s', hrun, hI⟩ := hends.exists_ok
  exact ⟨s', hrun, hI⟩

/-- A loop stops only for a reason one of its steps stops for. -/
theorem forM_ne_error {body : α → Exec σ Unit} {e : Stop} {as : List α}
    (hbody : ∀ a ∈ as, ∀ s t, body a s ≠ .error e t) (s t : σ) :
    forM as body s ≠ .error e t := by
  have hends := forM_ends (fun _ _ => True) (E := fun e' _ => e' ≠ e) (fun _ a s ha _ =>
    ends_iff.mpr ⟨fun _ _ _ => trivial, fun e' t hrun heq => hbody a ha s t (heq ▸ hrun)⟩)
    (s := s) trivial
  exact fun hrun => hends.of_eq_error hrun rfl

/-- A loop whose body skips some items is the loop over the others. -/
theorem forM_filterMap {β : Type} {body : α → Exec σ Unit} {body' : β → Exec σ Unit}
    {f : α → Option β} {as : List α}
    (h : ∀ a ∈ as, body a = match f a with
      | none => pure ()
      | some b => body' b) :
    forM as body = forM (as.filterMap f) body' := by
  induction as with
  | nil => rfl
  | cons a as ih =>
    have ih' := ih fun b hb => h b (List.mem_cons_of_mem a hb)
    rw [List.forM_cons, h a List.mem_cons_self, List.filterMap_cons, ih']
    cases f a with
    | none => exact pure_bind ..
    | some b => rfl

/-- With enough fuel, a loop over a terminating iterator does not run out of it. -/
theorem forEach_ne_outOfFuel {next : Next ι α} {body : α → Exec σ Unit} {it it' : ι}
    {as : List α} (h : Yields next it as it')
    (hbody : ∀ a ∈ as, ∀ s t, body a s ≠ .error .outOfFuel t) {fuel : Nat}
    (hfuel : as.length < fuel) (s t : σ) :
    forEach next body fuel it s ≠ .error .outOfFuel t := by
  rw [forEach_eq_forM h hfuel]
  exact forM_ne_error hbody s t

/-- A loop whose iterator does not move never ends: every fuel runs out. -/
theorem forEach_of_stuck {next : Next ι α} {body : α → Exec σ Unit} {it : ι} {a : α} {s : σ}
    (hnext : next it = .ok (some a, it)) (hbody : body a s = .ok () s) (fuel : Nat) :
    forEach next body fuel it s = .error .outOfFuel s := by
  induction fuel with
  | zero => rfl
  | succ fuel ih =>
    rw [forEach, run_lift_bind hnext]
    simp only []
    rw [run_bind_of_ok hbody]
    exact ih

/-! ## Counted loops -/

/-- The loop `for i in 0..n`, with an invariant of the counter. -/
theorem forM_range_ends {body : Nat → Exec σ Unit} (I : Nat → σ → Prop) {E : Stop → σ → Prop}
    {n : Nat} (hstep : ∀ i < n, ∀ s, I i s → Ends (body i s) (fun _ s' => I (i + 1) s') E)
    {s : σ} (h₀ : I 0 s) : Ends (forM (List.range n) body s) (fun _ s' => I n s') E := by
  induction n with
  | zero => exact h₀
  | succ n ih =>
    rw [List.range_succ, List.forM_append]
    refine Ends.bind ((ih fun i hi => hstep i (Nat.lt_succ_of_lt hi)).mono ?_ fun _ _ h => h)
    intro _ t hI
    rw [List.forM_cons]
    exact Ends.bind ((hstep n (Nat.lt_succ_self n) t hI).mono (fun _ _ h => h) fun _ _ h => h)

/-- The loop `for i in (0..n).rev()`: the counter goes down. -/
theorem forM_range_reverse_ends {body : Nat → Exec σ Unit} (I : Nat → σ → Prop)
    {E : Stop → σ → Prop} {n : Nat}
    (hstep : ∀ i < n, ∀ s, I (i + 1) s → Ends (body i s) (fun _ s' => I i s') E)
    {s : σ} (h₀ : I n s) :
    Ends (forM (List.range n).reverse body s) (fun _ s' => I 0 s') E := by
  induction n generalizing s with
  | zero => exact h₀
  | succ n ih =>
    rw [List.range_succ, List.reverse_append, List.reverse_singleton, List.singleton_append,
      List.forM_cons]
    refine Ends.bind ((hstep n (Nat.lt_succ_self n) s h₀).mono ?_ fun _ _ h => h)
    intro _ t hI
    exact ih (fun i hi => hstep i (Nat.lt_succ_of_lt hi)) hI

/-! ## Ranges -/

/-- The values of `(a..b).step_by(step)`. -/
def rangeStepBy (a b step : Nat) : List Nat :=
  (List.range (divCeil (b - a) step)).map fun i => a + i * step

theorem lt_divCeil_iff {n d i : Nat} (hd : 0 < d) : i < divCeil n d ↔ i * d < n := by
  have hdecomp := Nat.div_add_mod n d
  have hmod := Nat.mod_lt n hd
  have hcomm : d * (n / d) = n / d * d := Nat.mul_comm ..
  unfold divCeil
  split
  · rw [← Nat.mul_lt_mul_right hd]
    omega
  · -- With a remainder the quotient itself still fits.
    rw [Nat.lt_succ_iff]
    constructor
    · intro hle
      have := Nat.mul_le_mul_right d hle
      omega
    · intro hlt
      exact (Nat.le_div_iff_mul_le hd).mpr hlt.le

theorem divCeil_le_iff {n d i : Nat} (hd : 0 < d) : divCeil n d ≤ i ↔ n ≤ i * d := by
  have := lt_divCeil_iff (n := n) (i := i) hd
  omega

theorem le_divCeil_mul {n d : Nat} (hd : 0 < d) : n ≤ divCeil n d * d :=
  (divCeil_le_iff hd).mp le_rfl

theorem mem_rangeStepBy {a b step x : Nat} (hstep : 0 < step) :
    x ∈ rangeStepBy a b step ↔ x < b ∧ ∃ i, x = a + i * step := by
  simp only [rangeStepBy, List.mem_map, List.mem_range, lt_divCeil_iff hstep]
  constructor
  · rintro ⟨i, hi, rfl⟩
    exact ⟨by omega, i, rfl⟩
  · rintro ⟨hx, i, rfl⟩
    exact ⟨i, by omega, rfl⟩

end Zkrnl32.Machine
