import Mathlib

/-!
# Ownership of a Pool

An abstract pool hands out sets of resources and takes them back.  Whatever the
order of the hand-outs and returns, no resource is lost, duplicated or invented:
`Pool.Conserves` is an invariant of `Pool.Step`.
-/

namespace Zkrnl32.Machine

variable {α : Type}

/-- A pool: the free resources, and the sets handed out and not yet returned. -/
structure Pool (α : Type) where
  free : Set α
  held : List (Set α)

/-- The resources handed out. -/
def Pool.owned (pool : Pool α) : Set α := { x | ∃ part ∈ pool.held, x ∈ part }

/-- The pool splits exactly `total`: every held part is non-empty, the parts are pairwise
    disjoint and disjoint from the free set, and together they are `total`. -/
structure Pool.Conserves (pool : Pool α) (total : Set α) : Prop where
  nonempty : ∀ part ∈ pool.held, part.Nonempty
  pairwise : pool.held.Pairwise Disjoint
  disjoint : Disjoint pool.free pool.owned
  union : pool.free ∪ pool.owned = total

/-- One step: hand out a non-empty part of the free set, or take a held part back. -/
inductive Pool.Step : Pool α → Pool α → Prop where
  | take {free part : Set α} {held : List (Set α)} :
      part.Nonempty → part ⊆ free → Pool.Step ⟨free, held⟩ ⟨free \ part, part :: held⟩
  | give {free part : Set α} {held rest : List (Set α)} :
      (part :: rest).Perm held → Pool.Step ⟨free, held⟩ ⟨free ∪ part, rest⟩

theorem Pool.mem_owned_cons {free part : Set α} {held : List (Set α)} {x : α} :
    x ∈ (Pool.mk free (part :: held)).owned ↔ x ∈ part ∨ x ∈ (Pool.mk free held).owned := by
  simp [Pool.owned]

/-- An untouched pool conserves its free set. -/
theorem Pool.conserves_start (free : Set α) : (Pool.mk free []).Conserves free where
  nonempty := by simp
  pairwise := .nil
  disjoint := by simp [Pool.owned]
  union := by simp [Pool.owned]

/-- A part that is held is disjoint from the free set and inside the total. -/
theorem Pool.Conserves.held_part {pool : Pool α} {total : Set α} (h : pool.Conserves total)
    {part : Set α} (hpart : part ∈ pool.held) :
    Disjoint pool.free part ∧ part ⊆ total := by
  have hsub : part ⊆ pool.owned := fun x hx => ⟨part, hpart, hx⟩
  exact ⟨h.disjoint.mono_right hsub, h.union ▸ hsub.trans Set.subset_union_right⟩

/-- The order in which the parts are listed does not matter. -/
theorem Pool.Conserves.perm {free : Set α} {held held' : List (Set α)} {total : Set α}
    (h : (Pool.mk free held).Conserves total) (hperm : held.Perm held') :
    (Pool.mk free held').Conserves total := by
  have howned : (Pool.mk free held').owned = (Pool.mk free held).owned := by
    ext x
    simp [Pool.owned, hperm.mem_iff]
  exact
    { nonempty := fun part hpart => h.nonempty part (hperm.mem_iff.mpr hpart)
      pairwise := (hperm.pairwise_iff fun hd => hd.symm).mp h.pairwise
      disjoint := howned ▸ h.disjoint
      union := howned ▸ h.union }

/-- Step lemma: one step conserves the total. -/
theorem Pool.Step.conserves {pool pool' : Pool α} {total : Set α} (hstep : Pool.Step pool pool')
    (h : pool.Conserves total) : pool'.Conserves total := by
  cases hstep with
  | @take free part held hne hsub =>
    -- The new part was free, so nothing held before can meet it.
    have hdisj := Set.disjoint_left.mp h.disjoint
    refine ⟨?_, ?_, ?_, ?_⟩
    · rintro q hq
      rcases List.mem_cons.mp hq with rfl | hq
      · exact hne
      · exact h.nonempty q hq
    · refine List.pairwise_cons.mpr ⟨fun q hq => ?_, h.pairwise⟩
      exact Set.disjoint_left.mpr fun x hx hxq => hdisj (hsub hx) ⟨q, hq, hxq⟩
    · refine Set.disjoint_left.mpr fun x hx hown => ?_
      rcases Pool.mem_owned_cons.mp hown with hpart | hown
      · exact hx.2 hpart
      · exact hdisj hx.1 hown
    · rw [← h.union]
      ext x
      simp only [Set.mem_union, Set.mem_sdiff, Pool.mem_owned_cons]
      by_cases hx : x ∈ part
      · simp [hx, hsub hx]
      · simp only [hx, not_false_eq_true, and_true, false_or]
        rfl
  | @give free part held rest hperm =>
    -- Listed first, the returned part is the head of the pairwise condition.
    have h' := h.perm hperm.symm
    have hpw := List.pairwise_cons.mp h'.pairwise
    refine ⟨fun q hq => h'.nonempty q (List.mem_cons_of_mem _ hq), hpw.2, ?_, ?_⟩
    · refine Set.disjoint_left.mpr fun x hx hown => ?_
      rcases hx with hfree | hpart
      · exact Set.disjoint_left.mp h'.disjoint hfree (Pool.mem_owned_cons.mpr (Or.inr hown))
      · obtain ⟨q, hq, hxq⟩ := hown
        exact Set.disjoint_left.mp (hpw.1 q hq) hpart hxq
    · rw [← h'.union]
      ext x
      simp only [Set.mem_union, Pool.mem_owned_cons, or_assoc]
      rfl

end Zkrnl32.Machine
