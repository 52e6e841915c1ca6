import Mathlib.Data.List.Perm.Basic
import Mathlib.Order.Defs.Unbundled

/-!
# Comparators

A comparator gives a negative number where its first argument comes before the second, a positive one where it comes behind it, and zero
where they are equal. Equal elements need not be the same.
-/

namespace CodeFactory

universe u

variable {α : Type u}

/-- The comparator is a total preorder. -/
structure TotalPreorder (cmp : α → α → Int) : Prop where
  neg_iff : ∀ a b, cmp a b < 0 ↔ 0 < cmp b a
  trans : ∀ {a b c}, cmp a b ≤ 0 → cmp b c ≤ 0 → cmp a c ≤ 0

/-- The comparator of the values of a function. -/
def comparing (f : α → Int) (a b : α) : Int := f a - f b

theorem totalPreorder_comparing (f : α → Int) : TotalPreorder (comparing f) where
  neg_iff a b := by
    unfold comparing
    omega
  trans hab hbc := by
    unfold comparing at *
    omega

namespace TotalPreorder

variable {cmp : α → α → Int} (h : TotalPreorder cmp) {a b c : α}

include h

theorem nonpos_iff : cmp a b ≤ 0 ↔ 0 ≤ cmp b a := by
  have hiff := h.neg_iff b a
  omega

theorem self (a : α) : cmp a a = 0 := by
  have hiff := h.neg_iff a a
  omega

theorem trans_nonneg (hab : 0 ≤ cmp a b) (hbc : 0 ≤ cmp b c) : 0 ≤ cmp a c :=
  h.nonpos_iff.1 (h.trans (h.nonpos_iff.2 hbc) (h.nonpos_iff.2 hab))

/-- What is equal to something comes before and behind the same. -/
theorem neg_of_nonpos_of_neg (hab : cmp a b ≤ 0) (hbc : cmp b c < 0) : cmp a c < 0 := by
  by_contra hac
  have hca : cmp c a ≤ 0 := h.nonpos_iff.2 (Int.not_lt.1 hac)
  have hcb : cmp c b ≤ 0 := h.trans hca hab
  have hcb' := (h.neg_iff b c).1 hbc
  omega

theorem neg_of_neg_of_nonpos (hab : cmp a b < 0) (hbc : cmp b c ≤ 0) : cmp a c < 0 := by
  by_contra hac
  have hca : cmp c a ≤ 0 := h.nonpos_iff.2 (Int.not_lt.1 hac)
  have hba : cmp b a ≤ 0 := h.trans hbc hca
  have hba' := (h.neg_iff a b).1 hab
  omega

theorem pos_of_pos_of_nonneg (hab : 0 < cmp a b) (hbc : 0 ≤ cmp b c) : 0 < cmp a c :=
  (h.neg_iff c a).1 (h.neg_of_nonpos_of_neg (h.nonpos_iff.2 hbc) ((h.neg_iff b a).2 hab))

end TotalPreorder

end CodeFactory
