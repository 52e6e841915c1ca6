import Mathlib.Data.List.Basic
import Mathlib.Data.List.DropRight

/-!
# Lists cut at a separator

A list without a separator in it is a part. `dotted sep ps` writes the separator behind every one of the parts `ps`; cutting
at the separators gives the parts back, and every list is `dotted sep ps ++ l` for the parts `ps ++ [l]` it is cut into.
-/

namespace CodeFactory

universe u

variable {α : Type u}

/-- The parts `ps`, with a separator behind each. -/
def dotted (sep : α) (ps : List (List α)) : List α := ps.flatMap fun p => p ++ [sep]

@[simp] theorem dotted_nil (sep : α) : dotted sep [] = [] := rfl

@[simp] theorem dotted_cons (sep : α) (p : List α) (ps : List (List α)) :
    dotted sep (p :: ps) = p ++ sep :: dotted sep ps := by
  simp [dotted]

@[simp] theorem dotted_append (sep : α) (ps qs : List (List α)) :
    dotted sep (ps ++ qs) = dotted sep ps ++ dotted sep qs := List.flatMap_append

theorem dotted_eq_nil_iff {sep : α} {ps : List (List α)} : dotted sep ps = [] ↔ ps = [] := by
  cases ps <;> simp

/-- What a separator is behind ends in the separator. -/
theorem dotted_concat (sep : α) (ps : List (List α)) (p : List α) :
    dotted sep (ps ++ [p]) = (dotted sep ps ++ p) ++ [sep] := by
  simp

variable [DecidableEq α] {sep : α}

/-- There are as many separators as parts. -/
theorem count_dotted {ps : List (List α)} (h : ∀ p ∈ ps, sep ∉ p) : (dotted sep ps).count sep = ps.length := by
  induction ps with
  | nil => rfl
  | cons p ps ih =>
    obtain ⟨hp, hps⟩ := List.forall_mem_cons.1 h
    rw [dotted_cons, List.count_append, List.count_cons_self, ih hps, List.count_eq_zero.2 hp, List.length_cons]
    omega

/-- Cutting gives the parts back. -/
theorem splitOn_dotted_append {ps : List (List α)} (h : ∀ p ∈ ps, sep ∉ p) (s : List α) :
    (dotted sep ps ++ s).splitOn sep = ps ++ s.splitOn sep := by
  induction ps with
  | nil => rfl
  | cons p ps ih =>
    obtain ⟨hp, hps⟩ := List.forall_mem_cons.1 h
    rw [dotted_cons, List.append_assoc, List.cons_append, List.splitOn_append_cons_self_of_not_mem hp, ih hps]
    rfl

theorem splitOn_dotted_append_part {ps : List (List α)} {l : List α} (h : ∀ p ∈ ps, sep ∉ p) (hl : sep ∉ l) :
    (dotted sep ps ++ l).splitOn sep = ps ++ [l] := by
  rw [splitOn_dotted_append h, List.splitOn_eq_singleton hl]

/-- Every list is made of the parts it is cut into. -/
theorem exists_dotted (sep : α) (s : List α) :
    ∃ ps l, (∀ p ∈ ps, sep ∉ p) ∧ sep ∉ l ∧ s = dotted sep ps ++ l ∧ s.splitOn sep = ps ++ [l] := by
  induction s with
  | nil => exact ⟨[], [], by simp, by simp, rfl, List.splitOn_nil sep⟩
  | cons x s ih =>
    obtain ⟨ps, l, hps, hl, rfl, _⟩ := ih
    by_cases hx : x = sep
    · subst hx
      have h : ∀ p ∈ [] :: ps, x ∉ p := List.forall_mem_cons.2 ⟨by simp, hps⟩
      exact ⟨[] :: ps, l, h, hl, by simp, splitOn_dotted_append_part h hl⟩
    · cases ps with
      | nil =>
        have h : sep ∉ x :: l := by simp [hl, Ne.symm hx]
        exact ⟨[], x :: l, by simp, h, rfl, List.splitOn_eq_singleton h⟩
      | cons p ps =>
        obtain ⟨hp, hps⟩ := List.forall_mem_cons.1 hps
        have h : ∀ q ∈ (x :: p) :: ps, sep ∉ q := List.forall_mem_cons.2 ⟨by simp [hp, Ne.symm hx], hps⟩
        exact ⟨(x :: p) :: ps, l, h, hl, by simp, splitOn_dotted_append_part h hl⟩

/-- The part behind the last separator. -/
theorem rtakeWhile_dotted_append {ps : List (List α)} {l : List α} (hl : sep ∉ l) :
    (dotted sep ps ++ l).rtakeWhile (fun x => x ≠ sep) = l := by
  induction l using List.reverseRecOn with
  | nil =>
    cases ps using List.reverseRecOn with
    | nil => rfl
    | append_singleton ps p => rw [List.append_nil, dotted_concat, List.rtakeWhile_concat_neg _ _ _ (by simp)]
  | append_singleton l x ih =>
    rw [List.mem_append, not_or, List.mem_singleton] at hl
    rw [← List.append_assoc, List.rtakeWhile_concat_pos _ _ _ (by simpa using Ne.symm hl.2), ih hl.1]

/-- What is up to the last separator, with it. -/
theorem rdropWhile_dotted_append {ps : List (List α)} {l : List α} (hl : sep ∉ l) :
    (dotted sep ps ++ l).rdropWhile (fun x => x ≠ sep) = dotted sep ps := by
  induction l using List.reverseRecOn with
  | nil =>
    cases ps using List.reverseRecOn with
    | nil => rfl
    | append_singleton ps p => rw [List.append_nil, dotted_concat, List.rdropWhile_concat_neg _ _ _ (by simp)]
  | append_singleton l x ih =>
    rw [List.mem_append, not_or, List.mem_singleton] at hl
    rw [← List.append_assoc, List.rdropWhile_concat_pos _ _ _ (by simpa using Ne.symm hl.2), ih hl.1]

/-- More parts with their separators never start a list with fewer: it has not that many separators. -/
theorem not_dotted_prefix {ps qs : List (List α)} {l : List α} (hps : ∀ p ∈ ps, sep ∉ p) (hqs : ∀ q ∈ qs, sep ∉ q)
    (hl : sep ∉ l) (hlen : qs.length < ps.length) : ¬dotted sep ps <+: dotted sep qs ++ l := by
  intro h
  have hc := h.sublist.count_le sep
  rw [count_dotted hps, List.count_append, count_dotted hqs, List.count_eq_zero.2 hl] at hc
  omega

end CodeFactory
