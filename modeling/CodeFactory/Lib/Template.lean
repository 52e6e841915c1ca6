import Mathlib.Data.List.Basic

/-!
# Names with a place for a number

A template is a name, or a name with a hole between its front and its back. Templates that are apart have no name in common, whatever
their holes are filled with.
-/

namespace CodeFactory

universe u

/-- A name, or one with a hole. -/
inductive Template (α : Type u) where
  | whole (name : List α)
  | hole (front back : List α)
  deriving DecidableEq, Repr

namespace Template

variable {α : Type u}

/-- The name, with the hole filled. -/
def fill : Template α → List α → List α
  | whole name, _ => name
  | hole front back, middle => front ++ (middle ++ back)

theorem fill_hole_inj {front back middle middle' : List α} :
    (hole front back).fill middle = (hole front back).fill middle' ↔ middle = middle' := by
  rw [fill, fill, List.append_cancel_left_eq, List.append_cancel_right_eq]

variable [DecidableEq α]

/-- Two lists have different elements in the same place. -/
def differ : List α → List α → Bool
  | a :: as, b :: bs => a != b || differ as bs
  | _, _ => false

/-- Lists that differ are not continued to the same one. -/
theorem append_ne_of_differ {as bs : List α} (h : differ as bs = true) (cs ds : List α) : as ++ cs ≠ bs ++ ds := by
  induction as generalizing bs with
  | nil => simp [differ] at h
  | cons a as ih =>
    cases bs with
    | nil => simp [differ] at h
    | cons b bs =>
      rw [differ, Bool.or_eq_true, bne_iff_ne] at h
      intro heq
      rw [List.cons_append, List.cons_append] at heq
      rcases h with hne | hrest
      · exact hne (List.cons.inj heq).1
      · exact ih hrest (List.cons.inj heq).2

/-- No filling makes the same name of both. The backs are compared first: they differ early. -/
def apart : Template α → Template α → Bool
  | whole a, whole b => a.reverse != b.reverse
  | whole a, hole front back => !(back.reverse.isPrefixOf a.reverse) || !(front.isPrefixOf a)
  | hole front back, whole b => !(back.reverse.isPrefixOf b.reverse) || !(front.isPrefixOf b)
  | hole front back, hole front' back' => differ back.reverse back'.reverse || differ front front'

theorem isPrefixOf_fill (front back middle : List α) :
    back.reverse.isPrefixOf ((hole front back).fill middle).reverse = true ∧
      front.isPrefixOf ((hole front back).fill middle) = true := by
  rw [List.isPrefixOf_iff_prefix, List.isPrefixOf_iff_prefix, List.reverse_prefix]
  exact ⟨⟨front ++ middle, List.append_assoc _ _ _⟩, ⟨middle ++ back, rfl⟩⟩

/-- **Templates that are apart have no name in common.** -/
theorem fill_ne {s t : Template α} (h : apart s t = true) (middle middle' : List α) : s.fill middle ≠ t.fill middle' := by
  intro heq
  cases s with
  | whole a =>
    cases t with
    | whole b =>
      rw [apart, bne_iff_ne] at h
      exact h (congrArg List.reverse heq)
    | hole front back =>
      obtain ⟨hback, hfront⟩ := isPrefixOf_fill front back middle'
      rw [← heq] at hback hfront
      change back.reverse.isPrefixOf a.reverse = true at hback
      change front.isPrefixOf a = true at hfront
      rw [apart, hback, hfront] at h
      cases h
  | hole front back =>
    cases t with
    | whole b =>
      obtain ⟨hback, hfront⟩ := isPrefixOf_fill front back middle
      rw [heq] at hback hfront
      change back.reverse.isPrefixOf b.reverse = true at hback
      change front.isPrefixOf b = true at hfront
      rw [apart, hback, hfront] at h
      cases h
    | hole front' back' =>
      rw [apart, Bool.or_eq_true] at h
      rcases h with hback | hfront
      · refine append_ne_of_differ hback (front ++ middle).reverse (front' ++ middle').reverse ?_
        rw [← List.reverse_append, ← List.reverse_append, List.append_assoc, List.append_assoc]
        exact congrArg List.reverse heq
      · exact append_ne_of_differ hfront _ _ heq

theorem fill_ne_of_pairwise {ι : Type u} {f : ι → Template α} {xs ys : List ι} {x : ι}
    (h : (xs ++ x :: ys).Pairwise fun y z => apart (f y) (f z) = true) {y : ι} (hy : y ∈ xs ∨ y ∈ ys) (middle middle' : List α) :
    (f y).fill middle ≠ (f x).fill middle' := by
  rw [List.pairwise_append, List.pairwise_cons] at h
  rcases hy with hy | hy
  · exact fill_ne (h.2.2 y hy x List.mem_cons_self) middle middle'
  · exact (fill_ne (h.2.1.1 y hy) middle' middle).symm

end Template

end CodeFactory
