import CodeFactory.Lib.Outcome
import Mathlib.Algebra.Order.Ring.Int

/-!
# Loops

A `for` loop over an interval has a rule with an invariant for each index; a loop whose rounds go on or end has one with an invariant and
a measure that every round that goes on makes less.
-/

namespace CodeFactory.Outcome

universe u v

variable {σ : Type u} {ρ : Type v}

/-- The rounds of `forLoop` that are left. -/
def forLoopFrom (body : Int → σ → Outcome σ) : (rounds : Nat) → (i : Int) → σ → Outcome σ
  | 0, _, s => done s
  | rounds + 1, i, s => (body i s).bind (forLoopFrom body rounds (i + 1))

/-- `for (i = lo; i < hi; i++)`, with a body that changes neither `i` nor `hi`. -/
def forLoop (lo hi : Int) (body : Int → σ → Outcome σ) (s : σ) : Outcome σ := forLoopFrom body (hi - lo).toNat lo s

/-- Rounds that go on with a state, until one ends. -/
def loop (round : σ → Outcome (σ ⊕ ρ)) : (fuel : Nat) → σ → Outcome ρ
  | 0, _ => outOfFuel
  | fuel + 1, s => (round s).bind fun
      | .inl s => loop round fuel s
      | .inr r => done r

variable {body : Int → σ → Outcome σ} {round : σ → Outcome (σ ⊕ ρ)} {lo hi : Int} {s : σ} {fuel : Nat}

/-- **The rule for intervals.** -/
theorem forLoop_spec {I : Int → σ → Prop} (hle : lo ≤ hi)
    (hbody : ∀ i s, lo ≤ i → i < hi → I i s → ∃ s', body i s = done s' ∧ I (i + 1) s') (h : I lo s) :
    ∃ s', forLoop lo hi body s = done s' ∧ I hi s' := by
  have hrounds : ∀ rounds i s, lo ≤ i → i + (rounds : Nat) = hi → I i s → ∃ s', forLoopFrom body rounds i s = done s' ∧ I hi s' := by
    intro rounds
    induction rounds with
    | zero =>
      intro i s _ hend h
      obtain rfl : i = hi := by omega
      exact ⟨s, rfl, h⟩
    | succ rounds ih =>
      intro i s hi' hend h
      obtain ⟨t, ht, hnext⟩ := hbody i s hi' (by omega) h
      obtain ⟨s', hs', hlast⟩ := ih (i + 1) t (by omega) (by omega) hnext
      exact ⟨s', by rw [forLoopFrom, ht, bind_done, hs'], hlast⟩
  exact hrounds _ lo s (le_refl lo) (by omega) h

theorem forLoop_of_le (h : hi ≤ lo) : forLoop lo hi body s = done s := by
  rw [forLoop, Int.toNat_of_nonpos (by omega), forLoopFrom]

/-- **The rule for rounds.** -/
theorem loop_spec {I : σ → Prop} {P : ρ → Prop} (size : σ → Nat)
    (hround : ∀ s, I s → (∃ t, round s = done (.inl t) ∧ I t ∧ size t < size s) ∨ ∃ r, round s = done (.inr r) ∧ P r)
    (hfuel : size s < fuel) (h : I s) : ∃ r, loop round fuel s = done r ∧ P r := by
  induction fuel generalizing s with
  | zero => exact absurd hfuel (Nat.not_lt_zero _)
  | succ fuel ih =>
    rcases hround s h with ⟨t, ht, hnext, hless⟩ | ⟨r, hr, hend⟩
    · obtain ⟨r, hr, hend⟩ := ih (by omega) hnext
      exact ⟨r, by rw [loop, ht, bind_done]; exact hr, hend⟩
    · exact ⟨r, by rw [loop, hr]; rfl, hend⟩

end CodeFactory.Outcome
