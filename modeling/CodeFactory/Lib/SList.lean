import Mathlib.Data.List.Nodup
import Mathlib.Logic.Function.Basic

/-!
# Singly linked lists in memory

Nodes with a `next` link each. `ChainFrom next p xs` says that the nodes from the pointer `p` on are `xs`, and that the list ends
there. `lastFrom` is the loop that walks to the last node, with a bound on its rounds: it finds the last node of a list, and it
finds none, whatever the bound, where there is no end.
-/

namespace CodeFactory

universe u

variable {π : Type u}

/-- The nodes from the pointer `p` on are `xs`; the null pointer ends the list. -/
def ChainFrom (next : π → Option π) : Option π → List π → Prop
  | p, [] => p = none
  | p, x :: xs => p = some x ∧ ChainFrom next (next x) xs

/-- `while ( p->next ) p = p->next;`, in at most `fuel` rounds. -/
def lastFrom (next : π → Option π) : Nat → π → Option π
  | 0, _ => none
  | fuel + 1, p =>
    match next p with
    | none => some p
    | some q => lastFrom next fuel q

namespace ChainFrom

variable {next next' : π → Option π} {p : Option π} {x y : π} {xs ys : List π}

theorem unique (h : ChainFrom next p xs) (h' : ChainFrom next p ys) : xs = ys := by
  induction xs generalizing p ys with
  | nil =>
    cases ys with
    | nil => rfl
    | cons y ys => exact absurd (h.symm.trans h'.1) nofun
  | cons x xs ih =>
    cases ys with
    | nil => exact absurd (h.1.symm.trans h') nofun
    | cons y ys =>
      obtain rfl := Option.some.inj (h.1.symm.trans h'.1)
      rw [ih h.2 h'.2]

/-- A chain depends on the links of its own nodes only. -/
theorem congr (h : ChainFrom next p xs) (hnext : ∀ x ∈ xs, next' x = next x) : ChainFrom next' p xs := by
  induction xs generalizing p with
  | nil => exact h
  | cons x xs ih =>
    refine ⟨h.1, ?_⟩
    rw [hnext x List.mem_cons_self]
    exact ih h.2 fun y hy => hnext y (List.mem_cons_of_mem _ hy)

theorem mem_of_some (h : ChainFrom next p xs) (hp : p = some x) : x ∈ xs := by
  cases xs with
  | nil => exact absurd (hp.symm.trans h) nofun
  | cons z zs => exact Option.some.inj (hp.symm.trans h.1) ▸ List.mem_cons_self

theorem eq_nil_of_none (h : ChainFrom next none xs) : xs = [] := by
  cases xs with
  | nil => rfl
  | cons z zs => exact absurd h.1 nofun

/-- A list with a node linked to itself has no end. -/
theorem not_of_loop (h : ChainFrom next p xs) (hx : x ∈ xs) : next x ≠ some x := by
  induction xs generalizing p with
  | nil => cases hx
  | cons z zs ih =>
    rcases List.mem_cons.1 hx with rfl | hx
    · intro hloop
      have hself : ChainFrom next (some x) zs := hloop ▸ h.2
      have heq : zs = x :: zs := hself.unique (h.1 ▸ h)
      exact absurd (congrArg List.length heq) (by simp)
    · exact ih h.2 hx

/-- The walk finds the last node of a chain. -/
theorem lastFrom_eq (h : ChainFrom next (some x) (xs ++ [y])) {fuel : Nat} (hfuel : xs.length < fuel) :
    lastFrom next fuel x = some y := by
  induction xs generalizing x fuel with
  | nil =>
    obtain ⟨hx, hend⟩ := h
    obtain rfl := Option.some.inj hx
    obtain ⟨k, rfl⟩ : ∃ k, fuel = k + 1 := ⟨fuel - 1, by omega⟩
    have hend : next x = none := hend
    rw [lastFrom, hend]
  | cons z xs ih =>
    obtain ⟨hx, hrest⟩ := h
    obtain rfl := Option.some.inj hx
    rw [List.length_cons] at hfuel
    obtain ⟨k, rfl⟩ : ∃ k, fuel = k + 1 := ⟨fuel - 1, by omega⟩
    rw [lastFrom]
    cases hnext : next x with
    | none =>
      rw [hnext] at hrest
      cases xs with
      | nil => exact absurd hrest.1 nofun
      | cons w ws => exact absurd hrest.1 nofun
    | some w => exact ih (hnext ▸ hrest) (by omega)

/-- If the walk ends, it ends at the last node of the chain. -/
theorem eq_of_lastFrom (h : ChainFrom next (some x) (xs ++ [y])) {fuel : Nat} {z : π} (hz : lastFrom next fuel x = some z) :
    z = y := by
  induction fuel generalizing x xs with
  | zero => cases hz
  | succ fuel ih =>
    rw [lastFrom] at hz
    cases xs with
    | nil =>
      obtain ⟨hx, hend⟩ := h
      obtain rfl := Option.some.inj hx
      have hend : next x = none := hend
      rw [hend] at hz
      exact (Option.some.inj hz).symm
    | cons w ws =>
      obtain ⟨hx, hrest⟩ := h
      obtain rfl := Option.some.inj hx
      cases hnext : next x with
      | none =>
        have := (hnext ▸ hrest : ChainFrom next none (ws ++ [y])).eq_nil_of_none
        exact absurd this (by simp)
      | some w =>
        rw [hnext] at hz
        exact ih (hnext ▸ hrest) hz

variable [DecidableEq π]

/-- Whatever the last node of a chain is linked to, the list leads to that node. -/
theorem mem_of_update {zs : List π} {q : Option π} (h : ChainFrom next p (xs ++ [y])) (hy : y ∉ xs)
    (h' : ChainFrom (Function.update next y q) p zs) : y ∈ zs := by
  induction xs generalizing p zs with
  | nil => exact h'.mem_of_some h.1
  | cons x xs ih =>
    rw [List.mem_cons, not_or] at hy
    cases zs with
    | nil => exact absurd (h.1.symm.trans h') nofun
    | cons z zs =>
      obtain rfl := Option.some.inj (h.1.symm.trans h'.1)
      have hrest := h'.2
      rw [Function.update_of_ne (Ne.symm hy.1)] at hrest
      exact List.mem_cons_of_mem _ (ih h.2 hy.2 hrest)

/-- Linking a new node to the last one appends it. -/
theorem snoc (h : ChainFrom next p (xs ++ [y])) (hn : (xs ++ [y]).Nodup) (hx : x ∉ xs ++ [y]) (hend : next x = none) :
    ChainFrom (Function.update next y (some x)) p (xs ++ [y] ++ [x]) := by
  induction xs generalizing p with
  | nil =>
    have hxy : x ≠ y := fun e => hx (by simp [e])
    refine ⟨h.1, ?_, ?_⟩
    · rw [Function.update_self]
    · rw [Function.update_of_ne hxy]
      exact hend
  | cons z xs ih =>
    rw [List.cons_append, List.nodup_cons] at hn
    rw [List.cons_append, List.mem_cons, not_or] at hx
    have hzy : z ≠ y := fun e => hn.1 (by simp [e])
    refine ⟨h.1, ?_⟩
    rw [Function.update_of_ne hzy]
    exact ih h.2 hn.2 hx.2

end ChainFrom

/-- Where the walk ends there is a chain, the node found at its end. -/
theorem chainFrom_of_lastFrom {next : π → Option π} {fuel : Nat} {x y : π} (h : lastFrom next fuel x = some y) :
    ∃ xs, ChainFrom next (some x) xs := by
  induction fuel generalizing x with
  | zero => cases h
  | succ fuel ih =>
    rw [lastFrom] at h
    cases hnext : next x with
    | none => exact ⟨[x], rfl, hnext⟩
    | some w =>
      rw [hnext] at h
      obtain ⟨xs, hxs⟩ := ih h
      exact ⟨x :: xs, rfl, hnext ▸ hxs⟩

end CodeFactory
