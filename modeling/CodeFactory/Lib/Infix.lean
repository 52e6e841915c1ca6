import Mathlib.Data.List.Infix

/-!
# The first occurrence of a pattern

`List.dropInfix?` is the `strstr` of lists: what is before and behind the first occurrence. Here is how it goes on when text is
read character by character, and that an occurrence that is found in the head of a text is the one that is found in the text.
-/

namespace CodeFactory

universe u

/-- The head of a text of two parts ends in the first or in the second. -/
theorem prefix_append_cases {α : Type u} {q l x : List α} (h : q <+: l ++ x) : q <+: l ∨ ∃ q', q = l ++ q' ∧ q' <+: x := by
  obtain hq | ⟨q', rfl⟩ := List.prefix_or_prefix_of_prefix h (List.prefix_append l x)
  · exact .inl hq
  · exact .inr ⟨q', rfl, (List.prefix_append_right_inj l).1 h⟩

variable {α : Type u} [BEq α] [LawfulBEq α] {l i p s : List α}

/-- What is found is the first occurrence. -/
theorem dropInfix?_eq_some :
    l.dropInfix? i = some (p, s) ↔ l = p ++ i ++ s ∧ ∀ p' s', l = p' ++ i ++ s' → p.length ≤ p'.length := by
  rw [List.dropInfix?_eq_some_iff]
  constructor
  · rintro ⟨⟨i', hl, hi⟩, hfirst⟩
    obtain rfl := eq_of_beq hi
    exact ⟨hl, fun p' s' h => hfirst p' i' s' h (BEq.refl _)⟩
  · rintro ⟨hl, hfirst⟩
    refine ⟨⟨i, hl, BEq.refl _⟩, fun p' i' s' h hi => ?_⟩
    obtain rfl := eq_of_beq hi
    exact hfirst p' s' h

/-- A pattern at the head is found there. -/
theorem dropInfix?_append_left (i s : List α) : (i ++ s).dropInfix? i = some ([], s) :=
  dropInfix?_eq_some.2 ⟨rfl, fun _ _ _ => Nat.zero_le _⟩

/-- A pattern that is not at the head is searched behind the first character. -/
theorem dropInfix?_cons {a : α} (h : ¬i <+: a :: l) : (a :: l).dropInfix? i = (l.dropInfix? i).map fun r => (a :: r.1, r.2) := by
  refine Option.ext fun ⟨p, s⟩ => ?_
  rw [Option.map_eq_some_iff, dropInfix?_eq_some]
  constructor
  · rintro ⟨hl, hfirst⟩
    cases p with
    | nil => exact absurd ⟨s, hl.symm⟩ h
    | cons b p =>
      obtain ⟨rfl, htail⟩ := List.cons_eq_cons.1 hl
      refine ⟨(p, s), dropInfix?_eq_some.2 ⟨htail, fun p' s' hl' => ?_⟩, rfl⟩
      have hle := hfirst (a :: p') s' (by rw [hl']; rfl)
      rw [List.length_cons, List.length_cons] at hle
      omega
  · rintro ⟨⟨q, t⟩, hq, heq⟩
    cases heq
    obtain ⟨hl, hfirst⟩ := dropInfix?_eq_some.1 hq
    refine ⟨by rw [hl]; rfl, fun p' s' hl' => ?_⟩
    cases p' with
    | nil => exact absurd ⟨s', hl'.symm⟩ h
    | cons b p' =>
      exact Nat.succ_le_succ (hfirst p' s' (List.cons_eq_cons.1 hl').2)

/-- A pattern is found unless it does not occur. -/
theorem dropInfix?_eq_none : l.dropInfix? i = none ↔ ¬i <:+: l := by
  induction l with
  | nil =>
    cases i with
    | nil => simp
    | cons b i => simp [List.dropInfix?, List.dropInfix?.go]
  | cons a l ih =>
    by_cases h : i <+: a :: l
    · obtain ⟨t, ht⟩ := h
      rw [← ht, dropInfix?_append_left]
      exact iff_of_false (by simp) (fun hn => hn ⟨[], t, rfl⟩)
    · rw [dropInfix?_cons h, Option.map_eq_none_iff, ih, List.infix_cons_iff, not_or]
      exact ⟨fun hl => ⟨h, hl⟩, fun hl => hl.2⟩

/-- What is found in the head of a text is found in the text. -/
theorem dropInfix?_append (h : l.dropInfix? i = some (p, s)) (t : List α) : (l ++ t).dropInfix? i = some (p, s ++ t) := by
  obtain ⟨hl, hfirst⟩ := dropInfix?_eq_some.1 h
  refine dropInfix?_eq_some.2 ⟨by rw [hl, List.append_assoc], fun p' s' hl' => ?_⟩
  by_contra hlt
  -- an occurrence further to the front would end within the head
  have hlen := congrArg List.length hl
  simp only [List.length_append] at hlen
  obtain ⟨d, hd⟩ := List.prefix_of_prefix_length_le (⟨s', hl'.symm⟩ : p' ++ i <+: l ++ t) (List.prefix_append l t)
    (by rw [List.length_append]; omega)
  exact hlt (hfirst p' d hd.symm)

/-- A text without the first character of the pattern is passed. -/
theorem dropInfix?_append_of_notMem {a : α} {q : List α} (h : a ∉ q) (l : List α) :
    (q ++ l).dropInfix? (a :: i) = (l.dropInfix? (a :: i)).map fun r => (q ++ r.1, r.2) := by
  induction q with
  | nil => simp
  | cons b q ih =>
    obtain ⟨hb, hq⟩ := List.ne_and_not_mem_of_not_mem_cons h
    rw [List.cons_append, dropInfix?_cons (fun hp => hb (List.cons_prefix_cons.1 hp).1), ih hq, Option.map_map]
    rfl

end CodeFactory
