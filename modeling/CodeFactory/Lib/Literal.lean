import Mathlib.Data.List.Basic

/-!
# Literal strings

The characters of a string are computed from its bytes, which takes long. Those of a literal string are found by unfolding it once, as
the string of a list of characters.
-/

namespace CodeFactory

theorem ofChars {P : List Char → Prop} {chars : List Char} (h : P chars) : P (String.ofList chars).toList := by
  rw [String.toList_ofList]
  exact h

/-- The characters of several strings. -/
inductive CharsOf : List (List Char) → List (List Char) → Prop where
  | nil : CharsOf [] []
  | cons (chars : List Char) {texts charss : List (List Char)} (h : CharsOf texts charss) :
    CharsOf ((String.ofList chars).toList :: texts) (chars :: charss)

theorem CharsOf.eq {texts charss : List (List Char)} (h : CharsOf texts charss) : texts = charss := by
  induction h with
  | nil => rfl
  | cons chars h ih => rw [ih, String.toList_ofList]

end CodeFactory
