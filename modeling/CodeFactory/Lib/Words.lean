import Mathlib.Data.List.Basic
import Mathlib.Data.List.TakeWhile

/-!
# Words

The words of a list are its maximal runs of elements that are no separators. A scan of a list goes over a separator, or over a whole
word, at a time, and `Words.scan` is the induction that follows it.
-/

namespace CodeFactory.Words

universe u

variable {α : Type u} {sep : α → Bool} {w s : List α} {x : α}

/-- The words of a list, in their order. -/
def words (sep : α → Bool) (s : List α) : List (List α) := (s.splitOnP sep).filter fun w => !w.isEmpty

/-- A word: elements that are no separators, and not none. -/
def IsWord (sep : α → Bool) (w : List α) : Prop := w ≠ [] ∧ ∀ x ∈ w, sep x = false

/-- What can stand behind a word: nothing, or a separator. -/
def Ends (sep : α → Bool) (s : List α) : Prop := ∀ x ∈ s.head?, sep x = true

theorem Ends.nil : Ends sep [] := by
  intro x hx
  cases hx

theorem Ends.cons (h : sep x = true) (s : List α) : Ends sep (x :: s) := by
  intro y hy
  cases hy
  exact h

/-- What is behind the elements that are no separators. -/
theorem ends_dropWhile (s : List α) : Ends sep (s.dropWhile fun x => !sep x) := by
  intro x hx
  have h := List.head?_dropWhile_not (fun x => !sep x) s
  rw [Option.mem_def.1 hx] at h
  simpa using h

/-- Every list is elements that are no separators, and what can stand behind a word. -/
theorem exists_append_ends (sep : α → Bool) (s : List α) : ∃ w rest, s = w ++ rest ∧ (∀ x ∈ w, sep x = false) ∧ Ends sep rest := by
  refine ⟨_, _, List.takeWhile_append_dropWhile.symm, fun x hx => ?_, ends_dropWhile s⟩
  have hx := List.mem_takeWhile_imp hx
  simpa using hx

theorem isWord_takeWhile (h : sep x = false) (s : List α) : IsWord sep ((x :: s).takeWhile fun x => !sep x) := by
  refine ⟨by simp [h], fun y hy => ?_⟩
  have hy := List.mem_takeWhile_imp hy
  simpa using hy

/-! ## The words of a list -/

@[simp] theorem words_nil : words sep [] = [] := rfl

@[simp] theorem words_cons_sep (h : sep x = true) (s : List α) : words sep (x :: s) = words sep s := by
  rw [words, List.splitOnP_cons_eq_if_modifyHead, if_pos h]
  rfl

theorem words_append (hw : IsWord sep w) (hs : Ends sep s) : words sep (w ++ s) = w :: words sep s := by
  obtain ⟨hne, hw⟩ := hw
  cases s with
  | nil =>
    rw [List.append_nil, words, List.splitOnP_eq_singleton hw]
    simp [hne]
  | cons x s =>
    have hx := hs x rfl
    rw [words, List.splitOnP_append_cons_of_forall_mem hw x hx, words_cons_sep hx, List.filter_cons_of_pos (by simpa using hne), words]

theorem words_dropWhile (s : List α) : words sep (s.dropWhile sep) = words sep s := by
  induction s with
  | nil => rfl
  | cons x s ih =>
    cases hx : sep x with
    | true => rw [List.dropWhile_cons_of_pos hx, ih, words_cons_sep hx]
    | false => rw [List.dropWhile_cons_of_neg (by simp [hx])]

/-- Where a list is not empty, less of it is behind its first characters and the separators that follow them. -/
theorem length_dropWhile_lt (hs : Ends sep s) (hne : w ++ s ≠ []) : (s.dropWhile sep).length < (w ++ s).length := by
  cases s with
  | nil =>
    rw [List.append_nil] at hne ⊢
    exact List.length_pos_iff.2 hne
  | cons x s =>
    have hle : (s.dropWhile sep).length ≤ s.length := (List.dropWhile_suffix _).length_le
    rw [List.dropWhile_cons_of_pos (hs x rfl), List.length_append, List.length_cons]
    omega

/-- **Scanning.** What holds of the empty list, goes from a list to the list with one more separator in front of it, and from a list that
can stand behind a word to the one with a word in front, holds of every list. -/
theorem scan (sep : α → Bool) {motive : List α → Prop} (nil : motive []) (separator : ∀ x s, sep x = true → motive s → motive (x :: s))
    (word : ∀ w s, IsWord sep w → Ends sep s → motive s → motive (w ++ s)) (s : List α) : motive s := by
  induction hn : s.length using Nat.strong_induction_on generalizing s with
  | _ n ih =>
    cases s with
    | nil => exact nil
    | cons x s =>
      subst hn
      cases hx : sep x with
      | true => exact separator x s hx (ih _ (Nat.lt_succ_self _) s rfl)
      | false =>
        have hlength : ((x :: s).dropWhile fun x => !sep x).length < (x :: s).length := by
          rw [List.dropWhile_cons_of_pos (by simp [hx]), List.length_cons]
          exact Nat.lt_succ_of_le (List.dropWhile_suffix _).length_le
        have h := word _ _ (isWord_takeWhile hx s) (ends_dropWhile (x :: s)) (ih _ hlength _ rfl)
        rwa [List.takeWhile_append_dropWhile] at h

theorem flatten_words (s : List α) : (words sep s).flatten = s.filter fun x => !sep x := by
  induction s using scan sep with
  | nil => rfl
  | separator x s hx ih => rw [words_cons_sep hx, ih, List.filter_cons_of_neg (by simp [hx])]
  | word w s hw hs ih =>
    have hall : w.filter (fun x => !sep x) = w := List.filter_eq_self.2 fun x hx => by simp [hw.2 x hx]
    rw [words_append hw hs, List.flatten_cons, ih, List.filter_append, hall]

end CodeFactory.Words
