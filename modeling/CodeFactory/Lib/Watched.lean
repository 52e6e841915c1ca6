import Mathlib.Control.Monad.Writer

/-!
# Programs that are watched

A watched program gives its result together with a list of what it did on the way. What holds of everything that a program
composed of parts did is what holds of everything that its parts did.
-/

namespace CodeFactory

universe u

/-- A program of which the list of what it does is kept. -/
abbrev Watched (ε : Type u) (α : Type u) := Writer (List ε) α

namespace Watched

variable {ε α β : Type u}

/-- What the program gives. -/
def result (x : Watched ε α) : α := (WriterT.run x).run.1

/-- What the program did, in its order. -/
def acts (x : Watched ε α) : List ε := (WriterT.run x).run.2

/-- Do what is listed. -/
def note (es : List ε) : Watched ε PUnit := tell es

/-- Everything that the program did has the property `P`. -/
def All (P : ε → Prop) (x : Watched ε α) : Prop := ∀ e ∈ x.acts, P e

@[simp] theorem result_pure (a : α) : (pure a : Watched ε α).result = a := rfl

@[simp] theorem result_bind (x : Watched ε α) (f : α → Watched ε β) : (x >>= f).result = (f x.result).result := rfl

theorem acts_bind (x : Watched ε α) (f : α → Watched ε β) : (x >>= f).acts = x.acts ++ (f x.result).acts := rfl

variable {P : ε → Prop}

@[simp] theorem all_pure (a : α) : All P (pure a : Watched ε α) := by
  intro e he
  cases he

@[simp] theorem all_note (es : List ε) : All P (note es) ↔ ∀ e ∈ es, P e := Iff.rfl

/-- **The composition rule.** A program followed by another does only what has the property when each of the two does. -/
@[simp] theorem all_bind (x : Watched ε α) (f : α → Watched ε β) : All P (x >>= f) ↔ All P x ∧ All P (f x.result) := by
  rw [All, acts_bind, List.forall_mem_append, All, All]

end Watched

end CodeFactory
