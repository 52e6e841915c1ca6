import CodeFactory.Lib.Outcome
import Mathlib.Algebra.Order.Group.Multiset

/-!
# The machine that C runs on

The sizes of its types, and its memory as blocks that are allocated and freed. Which calls of `malloc` succeed is given, and a block has
the number of the call that it is from.
-/

namespace CodeFactory

/-- The sizes of `long` and of pointers. -/
inductive DataModel where
  | ilp32
  | lp64
  deriving DecidableEq, Repr

/-- `sizeof(char *)`. -/
def DataModel.sizeofPointer : DataModel → Nat
  | ilp32 => 4
  | lp64 => 8

def DataModel.ulongMax : DataModel → Nat
  | ilp32 => 0xffffffff
  | lp64 => 0xffffffffffffffff

theorem DataModel.sizeofPointer_pos (m : DataModel) : 0 < m.sizeofPointer := by
  cases m <;> decide

/-- The calls of `malloc` so far, and the blocks that are allocated. -/
structure Heap where
  calls : Nat
  live : Multiset Nat

namespace Heap

variable {malloc : Nat → Bool} {h h' : Heap} {b : Nat} {L : Multiset Nat}

def alloc (malloc : Nat → Bool) (h : Heap) : Option Nat × Heap :=
  if malloc h.calls then (some h.calls, ⟨h.calls + 1, h.calls ::ₘ h.live⟩) else (none, ⟨h.calls + 1, h.live⟩)

/-- `free`, of a block that is allocated. -/
def free (h : Heap) (b : Nat) : Outcome Heap := if b ∈ h.live then .done { h with live := h.live.erase b } else .undefined

/-- A call of `malloc` has failed between two moments. -/
def FailedBetween (malloc : Nat → Bool) (h h' : Heap) : Prop := ∃ k, h.calls ≤ k ∧ k < h'.calls ∧ malloc k = false

@[simp] theorem calls_alloc (malloc : Nat → Bool) (h : Heap) : (h.alloc malloc).2.calls = h.calls + 1 := by
  unfold alloc
  split <;> rfl

theorem alloc_of_true (hm : malloc h.calls = true) : h.alloc malloc = (some h.calls, ⟨h.calls + 1, h.calls ::ₘ h.live⟩) :=
  if_pos hm

theorem alloc_of_false (hm : malloc h.calls = false) : h.alloc malloc = (none, ⟨h.calls + 1, h.live⟩) :=
  if_neg (by simp [hm])

theorem free_of_live (hlive : h.live = b ::ₘ L) : h.free b = .done ⟨h.calls, L⟩ := by
  rw [free, hlive, if_pos (Multiset.mem_cons_self b L), Multiset.erase_cons_head]

theorem FailedBetween.mono {h₀ : Heap} (hf : FailedBetween malloc h h') (hle : h₀.calls ≤ h.calls) : FailedBetween malloc h₀ h' := by
  obtain ⟨k, hk, hk', hm⟩ := hf
  exact ⟨k, hle.trans hk, hk', hm⟩

end Heap

end CodeFactory
