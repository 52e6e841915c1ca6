import Mathlib.Data.Set.Basic
import Mathlib.Logic.ExistsUnique

/-!
# Who holds what

Holders have resources, no resource has two holders, and some of what a holder has is watched. The set of all that is watched is kept
apart, as is the set of all that is open. When one holder changes, both sets have to be changed with it.
-/

namespace CodeFactory

universe u v

/-- What each holder has and what of it is watched, the set of what is open, the set of what is watched, and one thing that is watched
for no holder. -/
structure Holders (ι : Type u) (ρ : Type v) where
  holds : ι → Set ρ
  watches : ι → Set ρ
  opened : Set ρ
  watched : Set ρ
  root : ρ

namespace Holders

variable {ι : Type u} {ρ : Type v}

/-- The two sets are right. -/
structure Consistent (H : Holders ι ρ) : Prop where
  watches_holds : ∀ i, H.watches i ⊆ H.holds i
  disjoint : ∀ i j r, r ∈ H.holds i → r ∈ H.holds j → i = j
  opened : ∀ i, H.holds i ⊆ H.opened
  sound : ∀ r ∈ H.watched, r = H.root ∨ ∃ i, r ∈ H.watches i
  complete : ∀ i, H.watches i ⊆ H.watched

variable {H H' : Holders ι ρ} {i : ι}

theorem Consistent.exactly (h : H.Consistent) {r : ρ} (hr : r ∈ H.watched) : r = H.root ∨ ∃! i, r ∈ H.watches i := by
  rcases h.sound r hr with hroot | ⟨i, hi⟩
  · exact .inl hroot
  · exact .inr ⟨i, hi, fun j hj => h.disjoint j i r (h.watches_holds j hj) (h.watches_holds i hi)⟩

/-- **One holder changes.** What it gets is open and nobody's, what is closed or no longer watched was its own, and the set of what is
watched says of its resources what it watches now. -/
theorem Consistent.change (h : H.Consistent) (hother : ∀ j, j ≠ i → H'.holds j = H.holds j ∧ H'.watches j = H.watches j)
    (hroot : H'.root = H.root) (hsub : H'.watches i ⊆ H'.holds i)
    (hnew : ∀ r ∈ H'.holds i, r ∈ H'.opened ∧ (r ∈ H.holds i ∨ ∀ j, r ∉ H.holds j))
    (hopened : ∀ r ∈ H.opened, r ∈ H'.opened ∨ r ∈ H.holds i)
    (hsound : ∀ r ∈ H'.watched, r ∈ H'.watches i ∨ r ∈ H.watched ∧ r ∉ H.watches i)
    (hcomplete : H'.watches i ⊆ H'.watched) (hkept : ∀ r ∈ H.watched, r ∈ H'.watched ∨ r ∈ H.holds i) : H'.Consistent := by
  -- nobody else has what the holder has now
  have hown : ∀ j r, j ≠ i → r ∈ H.holds j → r ∉ H'.holds i := by
    intro j r hj hr hi
    rcases (hnew r hi).2 with hold | hnobody
    · exact hj (h.disjoint j i r hr hold)
    · exact hnobody j hr
  refine ⟨fun j => ?_, fun j l r hj hl => ?_, fun j r hj => ?_, fun r hr => ?_, fun j r hj => ?_⟩
  · by_cases hji : j = i
    · exact hji ▸ hsub
    · rw [(hother j hji).1, (hother j hji).2]
      exact h.watches_holds j
  · by_cases hji : j = i
    · by_cases hli : l = i
      · rw [hji, hli]
      · rw [(hother l hli).1] at hl
        exact absurd (hji ▸ hj) (hown l r hli hl)
    · rw [(hother j hji).1] at hj
      by_cases hli : l = i
      · exact absurd (hli ▸ hl) (hown j r hji hj)
      · rw [(hother l hli).1] at hl
        exact h.disjoint j l r hj hl
  · by_cases hji : j = i
    · exact (hnew r (hji ▸ hj)).1
    · rw [(hother j hji).1] at hj
      rcases hopened r (h.opened j hj) with hopen | hi
      · exact hopen
      · exact absurd (h.disjoint j i r hj hi) hji
  · rcases hsound r hr with hi | ⟨hr, hi⟩
    · exact .inr ⟨i, hi⟩
    · rcases h.sound r hr with hr | ⟨j, hj⟩
      · exact .inl (hr.trans hroot.symm)
      · have hji : j ≠ i := by
          rintro rfl
          exact hi hj
        exact .inr ⟨j, (hother j hji).2 ▸ hj⟩
  · by_cases hji : j = i
    · exact hcomplete (hji ▸ hj)
    · rw [(hother j hji).2] at hj
      rcases hkept r (h.complete j hj) with hr | hi
      · exact hr
      · exact absurd (h.disjoint j i r (h.watches_holds j hj) hi) hji

end Holders

end CodeFactory
