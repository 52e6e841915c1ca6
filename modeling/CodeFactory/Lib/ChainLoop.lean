import CodeFactory.Lib.Outcome
import CodeFactory.Lib.SList
import Mathlib.Data.List.Basic

/-!
# Loops over a linked list

`for (x = p; x && live(x); x = next(x))`, with a body that goes on with a new state or leaves the loop. Over the nodes of a chain
it is a fold in `Except`. Then what linking and unlinking a node in the middle of a chain does.
-/

namespace CodeFactory

universe u v w

variable {π : Type u} {σ : Type v} {ε : Type w}

/-- The loop over the nodes from the pointer on, up to the null pointer or a node that is not in use, in at most `fuel` rounds. -/
def loopFrom (next : π → Option π) (live : π → Bool) (body : σ → π → Except ε σ) : Nat → Option π → σ → Outcome (Except ε σ)
  | 0, _, _ => .outOfFuel
  | _ + 1, none, s => .done (.ok s)
  | fuel + 1, some x, s =>
    if live x then
      match body s x with
      | .ok t => loopFrom next live body fuel (next x) t
      | .error e => .done (.error e)
    else .done (.ok s)

/-- The body of a loop that looks for a node. -/
def lookFor (test : π → Bool) (_ : Unit) (x : π) : Except π Unit := if test x then .error x else .ok ()

/-- The node that a loop has found. -/
def foundBy : Except π Unit → Option π
  | .error x => some x
  | .ok _ => none

/-- The loop that looks for a node. -/
def findFrom (next : π → Option π) (live test : π → Bool) (fuel : Nat) (p : Option π) : Outcome (Option π) :=
  (loopFrom next live (lookFor test) fuel p ()).map foundBy

/-- The nodes that a loop visits that does not leave before the end. -/
def nodesFrom (next : π → Option π) (live : π → Bool) : Nat → Option π → List π
  | 0, _ => []
  | _ + 1, none => []
  | fuel + 1, some x => if live x then x :: nodesFrom next live fuel (next x) else []

theorem foldlM_lookFor (test : π → Bool) (xs : List π) : foundBy (xs.foldlM (lookFor test) ()) = xs.find? test := by
  induction xs with
  | nil => rfl
  | cons x xs ih =>
    rw [List.foldlM_cons, List.find?_cons, lookFor]
    cases htest : test x with
    | true => rfl
    | false => exact ih

namespace ChainFrom

variable {next : π → Option π} {live : π → Bool} {p : Option π} {xs ys : List π} {x y : π}

/-- Over the nodes of a chain, up to one that is not in use, the loop is a fold over the nodes. -/
theorem loopFrom_append (h : ChainFrom next p (xs ++ ys)) (hlive : ∀ x ∈ xs, live x = true)
    (hdead : ∀ y ∈ ys.head?, live y = false) {fuel : Nat} (hfuel : xs.length < fuel) (body : σ → π → Except ε σ) (s : σ) :
    loopFrom next live body fuel p s = .done (xs.foldlM body s) := by
  induction xs generalizing p fuel s with
  | nil =>
    obtain ⟨k, rfl⟩ : ∃ k, fuel = k + 1 := ⟨fuel - 1, by have := hfuel; omega⟩
    rw [List.nil_append] at h
    cases ys with
    | nil =>
      obtain rfl : p = none := h
      rfl
    | cons y ys =>
      obtain ⟨rfl, -⟩ := h
      have hy : live y = false := hdead y rfl
      rw [loopFrom, hy]
      rfl
  | cons x xs ih =>
    obtain ⟨rfl, hrest⟩ := h
    rw [List.length_cons] at hfuel
    obtain ⟨k, rfl⟩ : ∃ k, fuel = k + 1 := ⟨fuel - 1, by omega⟩
    rw [loopFrom, if_pos (hlive x List.mem_cons_self), List.foldlM_cons]
    cases body s x with
    | error e => rfl
    | ok t => exact ih hrest (fun z hz => hlive z (List.mem_cons_of_mem _ hz)) (by omega) t

theorem loopFrom_eq (h : ChainFrom next p xs) (hlive : ∀ x ∈ xs, live x = true) {fuel : Nat} (hfuel : xs.length < fuel)
    (body : σ → π → Except ε σ) (s : σ) : loopFrom next live body fuel p s = .done (xs.foldlM body s) := by
  have happend : ChainFrom next p (xs ++ []) := by rwa [List.append_nil]
  exact happend.loopFrom_append hlive (fun y hy => by cases hy) hfuel body s

/-- The nodes that a loop visits, up to a node that is not in use. -/
theorem nodesFrom_append (h : ChainFrom next p (xs ++ ys)) (hlive : ∀ x ∈ xs, live x = true)
    (hdead : ∀ y ∈ ys.head?, live y = false) {fuel : Nat} (hfuel : xs.length < fuel) : nodesFrom next live fuel p = xs := by
  induction xs generalizing p fuel with
  | nil =>
    obtain ⟨k, rfl⟩ : ∃ k, fuel = k + 1 := ⟨fuel - 1, by have := hfuel; omega⟩
    rw [List.nil_append] at h
    cases ys with
    | nil =>
      obtain rfl : p = none := h
      rfl
    | cons y ys =>
      obtain ⟨rfl, -⟩ := h
      have hy : live y = false := hdead y rfl
      rw [nodesFrom, hy]
      rfl
  | cons x xs ih =>
    obtain ⟨rfl, hrest⟩ := h
    rw [List.length_cons] at hfuel
    obtain ⟨k, rfl⟩ : ∃ k, fuel = k + 1 := ⟨fuel - 1, by omega⟩
    rw [nodesFrom, if_pos (hlive x List.mem_cons_self), ih hrest (fun z hz => hlive z (List.mem_cons_of_mem _ hz)) (by omega)]

theorem nodesFrom_eq (h : ChainFrom next p xs) (hlive : ∀ x ∈ xs, live x = true) {fuel : Nat} (hfuel : xs.length < fuel) :
    nodesFrom next live fuel p = xs := by
  have happend : ChainFrom next p (xs ++ []) := by rwa [List.append_nil]
  exact happend.nodesFrom_append hlive (fun y hy => by cases hy) hfuel

theorem findFrom_eq (h : ChainFrom next p xs) (hlive : ∀ x ∈ xs, live x = true) {fuel : Nat} (hfuel : xs.length < fuel)
    (test : π → Bool) : findFrom next live test fuel p = .done (xs.find? test) := by
  rw [findFrom, h.loopFrom_eq hlive hfuel, ← foldlM_lookFor]
  rfl

theorem next_eq_head (h : ChainFrom next p (xs ++ y :: ys)) : next y = ys.head? := by
  induction xs generalizing p with
  | nil =>
    have htail : ChainFrom next (next y) ys := h.2
    cases ys with
    | nil => exact htail
    | cons z zs => exact htail.1
  | cons z zs ih => exact ih h.2

theorem eq_head (h : ChainFrom next p xs) : p = xs.head? := by
  cases xs with
  | nil => exact h
  | cons z zs => exact h.1

variable [DecidableEq π]

/-- Changing the link of a node that is not in the chain changes nothing. -/
theorem update_of_notMem (h : ChainFrom next p xs) (hx : x ∉ xs) (q : Option π) :
    ChainFrom (Function.update next x q) p xs := by
  refine h.congr fun y hy => ?_
  rw [Function.update_of_ne]
  rintro rfl
  exact hx hy

theorem insertHead (h : ChainFrom next p xs) (hx : x ∉ xs) : ChainFrom (Function.update next x p) (some x) (x :: xs) := by
  refine ⟨rfl, ?_⟩
  rw [Function.update_self]
  exact h.update_of_notMem hx p

/-- Linking a node after a node of the chain. -/
theorem insertAfter (h : ChainFrom next p (xs ++ y :: ys)) (hn : (xs ++ y :: ys).Nodup) (hx : x ∉ xs ++ y :: ys) :
    ChainFrom (Function.update (Function.update next x ys.head?) y (some x)) p (xs ++ y :: x :: ys) := by
  induction xs generalizing p with
  | nil =>
    rw [List.nil_append, List.nodup_cons] at hn
    rw [List.nil_append, List.mem_cons, not_or] at hx
    have hhead : next y = ys.head? := next_eq_head h
    refine ⟨h.1, ?_⟩
    rw [Function.update_self]
    refine ⟨rfl, ?_⟩
    rw [Function.update_of_ne hx.1, Function.update_self, ← hhead]
    refine ((h.2.update_of_notMem hx.2 (next y))).update_of_notMem hn.1 (some x)
  | cons z zs ih =>
    rw [List.cons_append, List.nodup_cons] at hn
    rw [List.cons_append, List.mem_cons, not_or] at hx
    have hzy : z ≠ y := by
      rintro rfl
      exact hn.1 (List.mem_append_right _ List.mem_cons_self)
    refine ⟨h.1, ?_⟩
    rw [Function.update_of_ne hzy, Function.update_of_ne (Ne.symm hx.1)]
    exact ih h.2 hn.2 hx.2

theorem removeHead (h : ChainFrom next p (x :: xs)) (hn : (x :: xs).Nodup) (q : Option π) :
    ChainFrom (Function.update next x q) xs.head? xs := by
  have htail : ChainFrom next (next x) xs := h.2
  rw [← htail.eq_head]
  exact htail.update_of_notMem (List.nodup_cons.1 hn).1 q

/-- Unlinking the node after a node of the chain. -/
theorem removeAfter (h : ChainFrom next p (xs ++ y :: x :: ys)) (hn : (xs ++ y :: x :: ys).Nodup) (q : Option π) :
    ChainFrom (Function.update (Function.update next x q) y ys.head?) p (xs ++ y :: ys) := by
  induction xs generalizing p with
  | nil =>
    obtain ⟨hy, hx⟩ := List.nodup_cons.1 hn
    refine ⟨h.1, ?_⟩
    rw [Function.update_self]
    have hrest := (h.2).removeHead hx q
    exact hrest.update_of_notMem (fun hmem => hy (List.mem_cons_of_mem _ hmem)) _
  | cons z zs ih =>
    rw [List.cons_append, List.nodup_cons] at hn
    have hzy : z ≠ y := by
      rintro rfl
      exact hn.1 (List.mem_append_right _ List.mem_cons_self)
    have hzx : z ≠ x := by
      rintro rfl
      exact hn.1 (List.mem_append_right _ (List.mem_cons_of_mem _ List.mem_cons_self))
    refine ⟨h.1, ?_⟩
    rw [Function.update_of_ne hzy, Function.update_of_ne hzx]
    exact ih h.2 hn.2

end ChainFrom

end CodeFactory
