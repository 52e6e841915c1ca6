import CodeFactory.Lib.Cells
import CodeFactory.Lib.Comparator
import CodeFactory.Lib.Outcome
import CodeFactory.Lib.Run
import Mathlib.Algebra.Order.Interval.Finset.SuccPred
import Mathlib.Algebra.Order.Ring.Nat
import Mathlib.Data.Nat.SuccPred
import Mathlib.Order.Interval.Finset.Nat

/-!
# The binary heap

`bh_create`, `bh_push` and `bh_pop`, over whole runs, of a heap without a destructor. Memory is always there; the traces are left out.
-/

namespace CodeFactory.DataStructure

open Outcome

universe u

/-- The heap: the cells of its array, of which there are `heapLength`, and its numbers, which are unsigned. -/
structure Bh (α : Type u) where
  heap : Nat → α
  heapHeight : Nat
  heapEnd : Nat
  heapLength : Nat

/-- Unsigned numbers have 32 bits. -/
def unsigned (n : Nat) : Nat := n % 2 ^ 32

/-- `LEVELSIZE`. The number that is shifted has a sign. -/
def levelSize (x : Nat) : Outcome Nat := if x < 31 then done (2 ^ x) else undefined

def parent (x : Nat) : Nat := x / 2

def leftChild (x : Nat) : Nat := unsigned (2 * x)

/-- The loop of `bh_create`: the length and the height. -/
def createLoop (initialSize : Nat) : (fuel heapLength heapHeight : Nat) → Outcome (Nat × Nat)
  | 0, _, _ => outOfFuel
  | fuel + 1, heapLength, heapHeight =>
    (levelSize heapHeight).bind fun size =>
      if unsigned (heapLength + size) ≤ initialSize then createLoop initialSize fuel (unsigned (heapLength + size)) (heapHeight + 1)
      else done (heapLength, heapHeight)

/-- `bh_create`, in memory that holds something. -/
def bhCreate {α : Type u} (memory : Nat → α) (initialSize : Int) : Outcome (Option (Bh α)) :=
  if initialSize ≤ 0 then done none
  else (createLoop initialSize.toNat 32 0 0).map fun (heapLength, heapHeight) => some ⟨memory, heapHeight - 1, 0, heapLength⟩

namespace Bh

variable {α : Type u} (cmp : α → α → Int)

/-- Read a cell of the array. -/
def read (h : Bh α) (i : Nat) : Outcome α := if i < h.heapLength then done (h.heap i) else undefined

/-- Write to a cell of the array. -/
def write (h : Bh α) (i : Nat) (x : α) : Outcome (Bh α) :=
  if i < h.heapLength then done { h with heap := Function.update h.heap i x } else undefined

/-- `swap`, of two cells that have been read. -/
def swap (h : Bh α) (i j : Nat) : Bh α := { h with heap := exchange h.heap i j }

def heapResize (h : Bh α) : Outcome (Bh α) :=
  if h.heapLength ≤ unsigned (h.heapEnd + 1) then
    (levelSize (unsigned (h.heapHeight + 1))).map fun size =>
      { h with heapHeight := unsigned (h.heapHeight + 1), heapLength := unsigned (h.heapLength + size) }
  else done h

/-- The loop of `siftup`, at the node `c`. -/
def siftup : (fuel : Nat) → Bh α → (c : Nat) → Outcome (Bh α)
  | 0, _, _ => outOfFuel
  | fuel + 1, h, c =>
    if c = 1 then done h
    else
      (h.read (parent c)).bind fun x => (h.read c).bind fun y =>
        if cmp x y ≤ 0 then siftup fuel (h.swap (parent c) c) (parent c) else done h

def bhPush (h : Bh α) (item : α) : Outcome (Bh α) :=
  h.heapResize.bind fun h =>
    let he := unsigned (h.heapEnd + 1)
    (Bh.write { h with heapEnd := he } he item).bind fun h => siftup cmp (he + 1) h he

/-- The loop of `siftdown`, at the node `p`, and what comes behind it. -/
def siftdown : (fuel : Nat) → Bh α → (p : Nat) → Outcome (Bh α)
  | 0, _, _ => outOfFuel
  | fuel + 1, h, p =>
    let c := leftChild p
    if c < h.heapEnd then
      (h.read c).bind fun left => (h.read (unsigned (c + 1))).bind fun right =>
        let c := if cmp left right ≤ 0 then unsigned (c + 1) else c
        (h.read p).bind fun x => (h.read c).bind fun y =>
          if cmp x y ≤ 0 then siftdown fuel (h.swap p c) c else done h
    else if c = h.heapEnd then
      (h.read p).bind fun x => (h.read c).bind fun y => done (if cmp x y ≤ 0 then h.swap p c else h)
    else done h

/-- `bh_pop`: what it returns, and the heap. -/
def bhPop (h : Bh α) : Outcome (Option α × Bh α) :=
  if 1 ≤ h.heapEnd then
    (h.read 1).bind fun retval => (h.read h.heapEnd).bind fun last => (h.write 1 last).bind fun h =>
      (siftdown cmp (h.heapEnd + 1) { h with heapEnd := h.heapEnd - 1 } 1).map fun h => (some retval, h)
  else done (none, h)

/-- What is popped until the heap is empty. -/
def popAll : (fuel : Nat) → Bh α → Outcome (List α)
  | 0, _ => outOfFuel
  | fuel + 1, h =>
    (bhPop cmp h).bind fun
      | (none, _) => done []
      | (some x, h) => (popAll fuel h).map (x :: ·)

/-- No node is smaller than its children. -/
def Heaped (h : Bh α) : Prop := ∀ i, 2 ≤ i → i ≤ h.heapEnd → 0 ≤ cmp (h.heap (parent i)) (h.heap i)

/-- The items in the array. -/
def items (h : Bh α) : Multiset α := contents h.heap (Finset.Icc 1 h.heapEnd)

end Bh

inductive BhCall (α : Type u) where
  | push (item : α)
  | pop
  deriving DecidableEq, Repr

/-- What a call returns. -/
inductive BhRet (α : Type u) where
  | rc (rc : Int)
  | item (retval : Option α)
  deriving DecidableEq, Repr

/-- The heap, what has been pushed and not popped, and what the last call has returned, where its behaviour is defined. -/
structure BhState (α : Type u) where
  bh : Bh α
  held : Multiset α
  ret : Option (BhRet α)

namespace BhState

variable {α : Type u} [DecidableEq α] (cmp : α → α → Int)

/-- A heap that is new. -/
def start (h : Bh α) : BhState α := ⟨h, 0, none⟩

/-- A call of `bh_push` or `bh_pop`. -/
def call (s : BhState α) : BhCall α → BhState α
  | .push item =>
    match s.bh.bhPush cmp item with
    | done h => ⟨h, item ::ₘ s.held, some (.rc 0)⟩
    | _ => { s with ret := none }
  | .pop =>
    match s.bh.bhPop cmp with
    | done (retval, h) => ⟨h, retval.elim s.held s.held.erase, some (.item retval)⟩
    | _ => { s with ret := none }

/-- What a call has to return, and what it leaves. -/
def Answers (s : BhState α) : BhCall α → BhState α → Prop
  | .push item, t => t.ret = some (.rc 0) ∧ t.held = item ::ₘ s.held
  | .pop, t =>
    (t.ret = some (.item none) ∧ s.held = 0 ∧ t.held = 0) ∨
      ∃ x ∈ s.held, t.ret = some (.item (some x)) ∧ (∀ y ∈ s.held, 0 ≤ cmp x y) ∧ t.held = s.held.erase x

/-- What is popped until the heap is empty are the items that are held, the greatest first. -/
def Drains (s : BhState α) : Prop :=
  ∃ xs, s.bh.popAll cmp (s.bh.heapEnd + 1) = done xs ∧ xs.Pairwise (fun x y => 0 ≤ cmp x y) ∧ (xs : Multiset α) = s.held

/-- A call does what it has to, in the array. -/
def Right (s : BhState α) (a : BhCall α) (t : BhState α) : Prop :=
  s.Answers cmp a t ∧ t.bh.Heaped cmp ∧ t.bh.items = t.held ∧ t.Drains cmp

/-- A heap of the size is made, and the calls do what they have to. -/
def Works (memory : Nat → α) (initialSize : Int) (calls : List (BhCall α)) : Prop :=
  ∃ b, bhCreate memory initialSize = done (some b) ∧ Always (Right cmp) (play (fun s a => some (s.call cmp a)) (start b) calls).1

end BhState

/-- Every item that is pushed finds room in an array of 31 levels, when so many are held before. -/
def Roomy {α : Type u} : (held : Nat) → List (BhCall α) → Prop
  | _, [] => True
  | held, .push _ :: calls => held < 2 ^ 31 - 2 ∧ Roomy (held + 1) calls
  | held, .pop :: calls => Roomy (held - 1) calls

variable {α : Type u} {cmp : α → α → Int} {b b' b'' : Bh α} {i j c p fuel : Nat} {x : α}

theorem unsigned_of_lt {n : Nat} (h : n < 2 ^ 32) : unsigned n = n := Nat.mod_eq_of_lt h

theorem parent_eq_iff : parent i = p ↔ i = 2 * p ∨ i = 2 * p + 1 := by
  unfold parent
  omega

namespace Bh

/-! ## The sifts -/

/-- Nodes are not smaller than their children, but for the one above `c`, which is not smaller than the children of `c`. -/
structure UpOrder (cmp : α → α → Int) (b : Bh α) (c : Nat) : Prop where
  except : ∀ i, 2 ≤ i → i ≤ b.heapEnd → i ≠ c → 0 ≤ cmp (b.heap (parent i)) (b.heap i)
  grand : 2 ≤ c → ∀ i, i ≤ b.heapEnd → parent i = c → 0 ≤ cmp (b.heap (parent c)) (b.heap i)

/-- Nodes are not smaller than their children, but for `p`, and the one above `p` is not smaller than the children of `p`. -/
structure DownOrder (cmp : α → α → Int) (b : Bh α) (p : Nat) : Prop where
  except : ∀ i, 2 ≤ i → i ≤ b.heapEnd → parent i ≠ p → 0 ≤ cmp (b.heap (parent i)) (b.heap i)
  grand : 2 ≤ p → ∀ i, i ≤ b.heapEnd → parent i = p → 0 ≤ cmp (b.heap (parent p)) (b.heap i)

/-- Items have only changed places. -/
structure SameItems (b b' : Bh α) : Prop where
  heapHeight : b'.heapHeight = b.heapHeight
  heapEnd : b'.heapEnd = b.heapEnd
  heapLength : b'.heapLength = b.heapLength
  items : b'.items = b.items

theorem SameItems.refl (b : Bh α) : SameItems b b := ⟨rfl, rfl, rfl, rfl⟩

theorem SameItems.trans (h : SameItems b b') (h' : SameItems b' b'') : SameItems b b'' :=
  ⟨h'.heapHeight.trans h.heapHeight, h'.heapEnd.trans h.heapEnd, h'.heapLength.trans h.heapLength, h'.items.trans h.items⟩

theorem sameItems_swap (hi : 1 ≤ i ∧ i ≤ b.heapEnd) (hj : 1 ≤ j ∧ j ≤ b.heapEnd) : SameItems b (b.swap i j) :=
  ⟨rfl, rfl, rfl, contents_exchange (Finset.mem_Icc.2 hi) (Finset.mem_Icc.2 hj)⟩

theorem read_of_lt (hi : i < b.heapLength) : b.read i = done (b.heap i) := if_pos hi

theorem write_of_lt (hi : i < b.heapLength) : b.write i x = done { b with heap := Function.update b.heap i x } := if_pos hi

theorem swap_left : (b.swap i j).heap i = b.heap j := exchange_left

theorem swap_right : (b.swap i j).heap j = b.heap i := exchange_right

theorem swap_of_ne {k : Nat} (hi : k ≠ i) (hj : k ≠ j) : (b.swap i j).heap k = b.heap k := exchange_of_ne hi hj

/-- A step up. -/
theorem UpOrder.swap (hcmp : TotalPreorder cmp) (h : UpOrder cmp b c) (hc : 2 ≤ c) (hend : c ≤ b.heapEnd)
    (hle : cmp (b.heap (parent c)) (b.heap c) ≤ 0) : UpOrder cmp (b.swap (parent c) c) (parent c) := by
  have hparent : parent c < c := by
    unfold parent
    omega
  constructor
  · intro i hi hiend hne
    change i ≤ b.heapEnd at hiend
    rcases eq_or_ne i c with rfl | hic
    · rw [swap_left, swap_right]
      exact hcmp.nonpos_iff.1 hle
    rw [swap_of_ne hne hic]
    rcases eq_or_ne (parent i) c with hchild | hother
    · rw [hchild, swap_right]
      exact h.grand hc i hiend hchild
    rcases eq_or_ne (parent i) (parent c) with hsibling | hapart
    · -- the other child of the node above
      rw [hsibling, swap_left]
      have hi' := h.except i hi hiend hic
      rw [hsibling] at hi'
      exact hcmp.trans_nonneg (hcmp.nonpos_iff.1 hle) hi'
    · rw [swap_of_ne hapart hother]
      exact h.except i hi hiend hic
  · intro hgrand i hiend hi
    change i ≤ b.heapEnd at hiend
    have hup : parent (parent c) < parent c := by
      unfold parent at *
      omega
    have habove := h.except (parent c) hgrand (by omega) (by omega)
    rw [swap_of_ne (by omega) (by omega)]
    rcases eq_or_ne i c with rfl | hic
    · rw [swap_right]
      exact habove
    · have hpos : parent i < i := by
        unfold parent at *
        omega
      have hi2 : 2 ≤ i := by
        unfold parent at *
        omega
      have hi' := h.except i hi2 hiend hic
      rw [swap_of_ne (by omega) hic]
      rw [hi] at hi'
      exact hcmp.trans_nonneg habove hi'

/-- At the top, or below a node that is not smaller. -/
theorem UpOrder.heaped (h : UpOrder cmp b c) (hc : 2 ≤ c → 0 ≤ cmp (b.heap (parent c)) (b.heap c)) : b.Heaped cmp := by
  intro i hi hiend
  rcases eq_or_ne i c with rfl | hne
  · exact hc hi
  · exact h.except i hi hiend hne

/-- `siftup` brings an item to its place. -/
theorem siftup_spec (hcmp : TotalPreorder cmp) (h : UpOrder cmp b c) (hc : 1 ≤ c) (hend : c ≤ b.heapEnd) (hlength : b.heapEnd < b.heapLength)
    (hfuel : c < fuel) : ∃ b', siftup cmp fuel b c = done b' ∧ b'.Heaped cmp ∧ SameItems b b' := by
  induction fuel generalizing b c with
  | zero => omega
  | succ fuel ih =>
    rw [siftup]
    split
    · exact ⟨b, rfl, h.heaped (by omega), SameItems.refl b⟩
    · have hparent : 1 ≤ parent c ∧ parent c < c := by
        unfold parent
        omega
      rw [read_of_lt (by omega), read_of_lt (by omega), bind_done, bind_done]
      split
      · rename_i hle
        obtain ⟨b', hb', hheaped, hsame⟩ := ih (h.swap hcmp (by omega) hend hle) hparent.1 (show _ ≤ b.heapEnd by omega) hlength (by omega)
        exact ⟨b', hb', hheaped, (sameItems_swap ⟨by omega, by omega⟩ ⟨hc, hend⟩).trans hsame⟩
      · rename_i hnot
        exact ⟨b, rfl, h.heaped fun _ => by omega, SameItems.refl b⟩

/-- A step down, to the greatest child. -/
theorem DownOrder.swap (hcmp : TotalPreorder cmp) (h : DownOrder cmp b p) (hp : 1 ≤ p) (hc : parent c = p) (hend : c ≤ b.heapEnd)
    (hmax : ∀ i, i ≤ b.heapEnd → parent i = p → 0 ≤ cmp (b.heap c) (b.heap i)) (hle : cmp (b.heap p) (b.heap c) ≤ 0) :
    DownOrder cmp (b.swap p c) c := by
  have hbelow : p < c := by
    unfold parent at *
    omega
  constructor
  · intro i hi hiend hne
    change i ≤ b.heapEnd at hiend
    rcases eq_or_ne (parent i) p with hchild | hother
    · rw [hchild, swap_left]
      rcases eq_or_ne i c with rfl | hic
      · rw [swap_right]
        exact hcmp.nonpos_iff.1 hle
      · have hip : i ≠ p := by
          unfold parent at *
          omega
        rw [swap_of_ne hip hic]
        exact hmax i hiend hchild
    · rw [swap_of_ne hother hne]
      rcases eq_or_ne i p with rfl | hip
      · rw [swap_left]
        exact h.grand hi c hend hc
      · have hic : i ≠ c := fun hic => hother (hic ▸ hc)
        rw [swap_of_ne hip hic]
        exact h.except i hi hiend hother
  · intro hc2 i hiend hi
    change i ≤ b.heapEnd at hiend
    have hi2 : 2 ≤ i ∧ c < i := by
      unfold parent at *
      omega
    rw [hc, swap_left, swap_of_ne (by omega) (by omega)]
    have hi' := h.except i hi2.1 hiend (by omega)
    rw [hi] at hi'
    exact hi'

/-- Where the node is not smaller than its children. -/
theorem DownOrder.heaped (h : DownOrder cmp b p) (hp : ∀ i, i ≤ b.heapEnd → parent i = p → 0 ≤ cmp (b.heap p) (b.heap i)) :
    b.Heaped cmp := by
  intro i hi hiend
  rcases eq_or_ne (parent i) p with hchild | hother
  · rw [hchild]
    exact hp i hiend hchild
  · exact h.except i hi hiend hother

/-- `siftdown` brings an item to its place. -/
theorem siftdown_spec (hcmp : TotalPreorder cmp) (h : DownOrder cmp b p) (hp : 1 ≤ p) (hend : p ≤ b.heapEnd + 1)
    (hlength : b.heapEnd < b.heapLength) (hmax : b.heapEnd < 2 ^ 31 - 1) (hfuel : b.heapEnd + 1 < fuel + p) :
    ∃ b', siftdown cmp fuel b p = done b' ∧ b'.Heaped cmp ∧ SameItems b b' := by
  induction fuel generalizing b p with
  | zero => omega
  | succ fuel ih =>
    have hleft : leftChild p = 2 * p := unsigned_of_lt (by omega)
    unfold siftdown
    dsimp only
    rw [hleft]
    split
    · rename_i hlt
      have hright : unsigned (2 * p + 1) = 2 * p + 1 := unsigned_of_lt (by omega)
      rw [hright, read_of_lt (by omega), read_of_lt (by omega), bind_done, bind_done]
      obtain ⟨c, hc, hchild, hcend, hgreatest⟩ : ∃ c, (if cmp (b.heap (2 * p)) (b.heap (2 * p + 1)) ≤ 0 then 2 * p + 1 else 2 * p) = c ∧
          parent c = p ∧ c ≤ b.heapEnd ∧ ∀ i, i ≤ b.heapEnd → parent i = p → 0 ≤ cmp (b.heap c) (b.heap i) := by
        split
        · rename_i hle
          refine ⟨_, rfl, parent_eq_iff.2 (.inr rfl), by omega, fun i _ hi => ?_⟩
          rcases parent_eq_iff.1 hi with rfl | rfl
          · exact hcmp.nonpos_iff.1 hle
          · exact (hcmp.self _).ge
        · rename_i hnot
          refine ⟨_, rfl, parent_eq_iff.2 (.inl rfl), by omega, fun i _ hi => ?_⟩
          rcases parent_eq_iff.1 hi with rfl | rfl
          · exact (hcmp.self _).ge
          · omega
      have hbelow := parent_eq_iff.1 hchild
      rw [hc, read_of_lt (by omega), read_of_lt (by omega), bind_done, bind_done]
      split
      · rename_i hle
        have hswap := h.swap hcmp hp hchild hcend hgreatest hle
        obtain ⟨b', hb', hheaped, hsame⟩ := ih hswap (by omega) (show c ≤ b.heapEnd + 1 by omega) hlength hmax
          (show b.heapEnd + 1 < fuel + c by omega)
        exact ⟨b', hb', hheaped, (sameItems_swap ⟨hp, by omega⟩ ⟨by omega, hcend⟩).trans hsame⟩
      · rename_i hnot
        refine ⟨b, rfl, h.heaped fun i hiend hi => ?_, SameItems.refl b⟩
        exact hcmp.trans_nonneg (by omega) (hgreatest i hiend hi)
    rename_i hnot
    split
    · rename_i heq
      -- the last node is the only child
      have honly : ∀ i, i ≤ b.heapEnd → parent i = p → i = 2 * p := fun i hiend hi => by
        have hi' := parent_eq_iff.1 hi
        omega
      rw [read_of_lt (by omega), read_of_lt (by omega), bind_done, bind_done]
      split
      · rename_i hle
        have hgreatest : ∀ i, i ≤ b.heapEnd → parent i = p → 0 ≤ cmp (b.heap (2 * p)) (b.heap i) := fun i hiend hi => by
          rw [honly i hiend hi]
          exact (hcmp.self _).ge
        have hswap := h.swap hcmp hp (parent_eq_iff.2 (.inl rfl)) heq.le hgreatest hle
        refine ⟨_, rfl, hswap.heaped fun i hiend hi => ?_, sameItems_swap ⟨hp, by omega⟩ ⟨by omega, heq.le⟩⟩
        have hi' := parent_eq_iff.1 hi
        change i ≤ b.heapEnd at hiend
        omega
      · rename_i hgt
        refine ⟨b, rfl, h.heaped fun i hiend hi => ?_, SameItems.refl b⟩
        rw [honly i hiend hi]
        omega
    · refine ⟨b, rfl, h.heaped fun i hiend hi => ?_, SameItems.refl b⟩
      have hi' := parent_eq_iff.1 hi
      omega

/-! ## Pushing and popping -/

/-- What holds of every heap between calls: the array has full levels, and not too many. -/
structure Sound (cmp : α → α → Int) (b : Bh α) : Prop where
  length : b.heapLength = 2 ^ (b.heapHeight + 1) - 1
  height : b.heapHeight ≤ 30
  lt : b.heapEnd < b.heapLength
  heaped : b.Heaped cmp

/-- An array with 31 levels is the longest. -/
theorem Sound.length_le (h : b.Sound cmp) : b.heapLength ≤ 2 ^ 31 - 1 := by
  rw [h.length]
  exact Nat.sub_le_sub_right (Nat.pow_le_pow_right (by decide) (Nat.succ_le_succ h.height)) 1

/-- The array is as long as it can be exactly when it has 31 levels. -/
theorem Sound.height_lt_iff (h : b.Sound cmp) : b.heapHeight < 30 ↔ b.heapLength < 2 ^ 31 - 1 := by
  rw [h.length]
  constructor
  · intro hlt
    have hle : 2 ^ (b.heapHeight + 1) ≤ 2 ^ 30 := Nat.pow_le_pow_right (by decide) hlt
    omega
  · intro hlt
    by_contra hnot
    have heq : b.heapHeight = 30 := le_antisymm h.height (Nat.not_lt.1 hnot)
    rw [heq] at hlt
    exact absurd hlt (by decide)

/-- `heap_resize` makes room for an item, where there can be room. -/
theorem Sound.heapResize (h : b.Sound cmp) (hroom : b.heapEnd < 2 ^ 31 - 2) :
    ∃ n k, b.heapResize = done { b with heapHeight := n, heapLength := k } ∧ k = 2 ^ (n + 1) - 1 ∧ n ≤ 30 ∧ b.heapEnd + 1 < k := by
  have hle := h.length_le
  have hlt := h.lt
  have hend : unsigned (b.heapEnd + 1) = b.heapEnd + 1 := unsigned_of_lt (by omega)
  unfold Bh.heapResize
  rw [hend]
  split
  · rename_i hfull
    have hheight : b.heapHeight < 30 := h.height_lt_iff.2 (by omega)
    have hpos : 0 < 2 ^ (b.heapHeight + 1) := Nat.pow_pos (by decide)
    have hlength := h.length
    have hpow : 2 ^ (b.heapHeight + 1) ≤ 2 ^ 30 := Nat.pow_le_pow_right (by decide) hheight
    rw [unsigned_of_lt (show b.heapHeight + 1 < 2 ^ 32 by omega), levelSize, if_pos (by omega)]
    refine ⟨_, _, rfl, ?_, by omega, ?_⟩
    · rw [unsigned_of_lt (by omega), pow_succ _ (b.heapHeight + 1)]
      omega
    · rw [unsigned_of_lt (by omega)]
      omega
  · exact ⟨b.heapHeight, b.heapLength, rfl, h.length, h.height, by omega⟩

theorem card_items (b : Bh α) : b.items.card = b.heapEnd := by
  rw [items, contents, Multiset.card_map, Finset.card_val, Nat.card_Icc, Nat.add_sub_cancel]

theorem items_succ (b : Bh α) (h : b'.heapEnd = b.heapEnd + 1) (hheap : ∀ i ≤ b.heapEnd, b'.heap i = b.heap i) :
    b'.items = b'.heap b'.heapEnd ::ₘ b.items := by
  have hinsert : Finset.Icc 1 (b.heapEnd + 1) = insert (b.heapEnd + 1) (Finset.Icc 1 b.heapEnd) :=
    (Finset.insert_Icc_right_eq_Icc_add_one (by omega)).symm
  rw [items, h, hinsert, contents_insert (by simp), items]
  congr 1
  exact contents_congr fun i hi => hheap i (Finset.mem_Icc.1 hi).2

/-- `bh_push`, where there can be room. -/
theorem Sound.bhPush (hcmp : TotalPreorder cmp) (h : b.Sound cmp) (hroom : b.heapEnd < 2 ^ 31 - 2) (x : α) :
    ∃ b', b.bhPush cmp x = done b' ∧ b'.Sound cmp ∧ b'.items = x ::ₘ b.items := by
  obtain ⟨n, k, hresize, hk, hn, hlt⟩ := h.heapResize hroom
  have hend : unsigned (b.heapEnd + 1) = b.heapEnd + 1 := unsigned_of_lt (by omega)
  unfold Bh.bhPush
  rw [hresize, bind_done]
  dsimp only
  rw [hend, write_of_lt hlt, bind_done]
  dsimp only
  have hother : ∀ i ≤ b.heapEnd, Function.update b.heap (b.heapEnd + 1) x i = b.heap i := fun i hi =>
    Function.update_of_ne (by omega) x b.heap
  have horder : UpOrder cmp ⟨Function.update b.heap (b.heapEnd + 1) x, n, b.heapEnd + 1, k⟩ (b.heapEnd + 1) := by
    constructor
    · intro i hi hiend hne
      change i ≤ b.heapEnd + 1 at hiend
      have hparent : parent i < i := by
        unfold parent
        omega
      dsimp only
      rw [hother i (by omega), hother (parent i) (by omega)]
      exact h.heaped i hi (by omega)
    · intro _ i hiend hi
      change i ≤ b.heapEnd + 1 at hiend
      unfold parent at hi
      omega
  obtain ⟨b', hb', hheaped, hsame⟩ := siftup_spec hcmp horder (Nat.succ_pos _) (le_refl _) hlt (Nat.lt_succ_self _)
  refine ⟨b', hb', ⟨?_, ?_, ?_, hheaped⟩, ?_⟩
  · rw [hsame.heapLength, hsame.heapHeight]
    exact hk
  · rw [hsame.heapHeight]
    exact hn
  · rw [hsame.heapEnd, hsame.heapLength]
    exact hlt
  · rw [hsame.items, items_succ b rfl hother]
    dsimp only
    rw [Function.update_self]

/-- There is no level for one item more: the number that is shifted has a sign. -/
theorem Sound.bhPush_undefined (h : b.Sound cmp) (hfull : ¬b.heapEnd < 2 ^ 31 - 2) (x : α) : b.bhPush cmp x = undefined := by
  have hle := h.length_le
  have hlt := h.lt
  have hheight : b.heapHeight = 30 := by
    have hiff := h.height_lt_iff
    have hheight := h.height
    omega
  have hend : unsigned (b.heapEnd + 1) = b.heapEnd + 1 := unsigned_of_lt (by omega)
  unfold Bh.bhPush Bh.heapResize
  rw [hend, if_pos (by omega), hheight]
  rfl

/-- The root is the greatest. -/
theorem Sound.root (hcmp : TotalPreorder cmp) (h : b.Sound cmp) (hi : 1 ≤ i) (hend : i ≤ b.heapEnd) :
    0 ≤ cmp (b.heap 1) (b.heap i) := by
  induction i using Nat.strong_induction_on with
  | _ i ih =>
    rcases Nat.lt_or_ge i 2 with hone | htwo
    · obtain rfl : i = 1 := by omega
      exact (hcmp.self _).ge
    · have hparent : 1 ≤ parent i ∧ parent i < i := by
        unfold parent
        omega
      exact hcmp.trans_nonneg (ih (parent i) hparent.2 hparent.1 (by omega)) (h.heaped i htwo hend)

/-- `bh_pop`, of a heap that is not empty. -/
theorem Sound.bhPop (hcmp : TotalPreorder cmp) (h : b.Sound cmp) (hpos : 1 ≤ b.heapEnd) :
    ∃ b', b.bhPop cmp = done (some (b.heap 1), b') ∧ b'.Sound cmp ∧ b.items = b.heap 1 ::ₘ b'.items ∧ b'.heapEnd + 1 = b.heapEnd := by
  have hle := h.length_le
  have hlt := h.lt
  unfold Bh.bhPop
  rw [if_pos hpos, read_of_lt (by omega), bind_done, read_of_lt hlt, bind_done, write_of_lt (by omega), bind_done]
  dsimp only
  have horder : DownOrder cmp ⟨Function.update b.heap 1 (b.heap b.heapEnd), b.heapHeight, b.heapEnd - 1, b.heapLength⟩ 1 := by
    constructor
    · intro i hi hiend hne
      change i ≤ b.heapEnd - 1 at hiend
      dsimp only
      rw [Function.update_of_ne hne, Function.update_of_ne (by omega)]
      exact h.heaped i hi (by omega)
    · intro hone
      omega
  obtain ⟨b', hb', hheaped, hsame⟩ := siftdown_spec hcmp horder (le_refl 1) (Nat.succ_pos _) (show b.heapEnd - 1 < b.heapLength by omega)
    (show b.heapEnd - 1 < 2 ^ 31 - 1 by omega) (show b.heapEnd - 1 + 1 < b.heapEnd + 1 + 1 by omega)
  have hend : b'.heapEnd + 1 = b.heapEnd := by
    rw [hsame.heapEnd]
    exact Nat.sub_add_cancel hpos
  refine ⟨b', by rw [hb']; rfl, ⟨?_, ?_, ?_, hheaped⟩, ?_, hend⟩
  · rw [hsame.heapLength, hsame.heapHeight]
    exact h.length
  · rw [hsame.heapHeight]
    exact h.height
  · rw [hsame.heapLength]
    exact (show b'.heapEnd < b.heapLength by omega)
  · -- the last item and the one at the root have changed places
    have hlast : b.items = (b.swap 1 b.heapEnd).items := ((sameItems_swap ⟨le_refl 1, hpos⟩ ⟨hpos, le_refl _⟩).items).symm
    have hother : ∀ i ≤ b.heapEnd - 1, (b.swap 1 b.heapEnd).heap i = Function.update b.heap 1 (b.heap b.heapEnd) i := by
      intro i hi
      rcases eq_or_ne i 1 with rfl | hne
      · rw [swap_left, Function.update_self]
      · rw [swap_of_ne hne (by omega), Function.update_of_ne hne]
    have hitems : (b.swap 1 b.heapEnd).items = (b.swap 1 b.heapEnd).heap b.heapEnd ::ₘ _ :=
      items_succ ⟨Function.update b.heap 1 (b.heap b.heapEnd), b.heapHeight, b.heapEnd - 1, b.heapLength⟩
        (show b.heapEnd = b.heapEnd - 1 + 1 by omega) hother
    rw [hlast, hsame.items, hitems, swap_right]

theorem bhPop_of_empty (h : b.heapEnd = 0) : b.bhPop cmp = done (none, b) := by
  rw [bhPop, if_neg (by omega)]

/-- What is popped until the heap is empty comes in order. -/
theorem Sound.popAll (hcmp : TotalPreorder cmp) (h : b.Sound cmp) (hfuel : b.heapEnd < fuel) :
    ∃ xs, b.popAll cmp fuel = done xs ∧ xs.Pairwise (fun x y => 0 ≤ cmp x y) ∧ (xs : Multiset α) = b.items := by
  induction fuel generalizing b with
  | zero => omega
  | succ fuel ih =>
    rw [Bh.popAll]
    rcases Nat.eq_zero_or_pos b.heapEnd with hzero | hpos
    · rw [bhPop_of_empty hzero]
      refine ⟨[], rfl, List.Pairwise.nil, ?_⟩
      have hcard := card_items b
      rw [hzero, Multiset.card_eq_zero] at hcard
      exact hcard.symm
    · obtain ⟨b', hb', hsound, hitems, hend⟩ := h.bhPop hcmp hpos
      obtain ⟨xs, hxs, hordered, hrest⟩ := ih hsound (by omega)
      rw [hb', bind_done]
      dsimp only
      rw [hxs]
      refine ⟨b.heap 1 :: xs, rfl, List.pairwise_cons.2 ⟨fun x hx => ?_, hordered⟩, ?_⟩
      · have hmem : x ∈ b.items := by
          rw [hitems, ← hrest]
          exact Multiset.mem_cons_of_mem hx
        obtain ⟨i, hi, rfl⟩ := mem_contents.1 hmem
        exact h.root hcmp (Finset.mem_Icc.1 hi).1 (Finset.mem_Icc.1 hi).2
      · rw [hitems, ← hrest, Multiset.cons_coe]

end Bh

/-! ## New heaps -/

/-- The rounds of the loop add a level each, until the next one would be too much. -/
theorem createLoop_spec {size k : Nat} (hsize : size < 2 ^ 31 - 1) (hk : k ≤ 30) (hfuel : 31 ≤ fuel + k) :
    ∃ n, createLoop size fuel (2 ^ k - 1) k = done (2 ^ n - 1, n) ∧ k ≤ n ∧ n ≤ 30 ∧ (2 ^ (k + 1) - 1 ≤ size → k < n) := by
  induction fuel generalizing k with
  | zero => omega
  | succ fuel ih =>
    have hpow : 2 ^ k ≤ 2 ^ 30 := Nat.pow_le_pow_right (by decide) hk
    have hpos : 0 < 2 ^ k := Nat.pow_pos (by decide)
    have hsum : 2 ^ k - 1 + 2 ^ k = 2 ^ (k + 1) - 1 := by
      rw [pow_succ]
      omega
    rw [createLoop, levelSize, if_pos (by omega), bind_done, unsigned_of_lt (by omega), hsum]
    split
    · rename_i hle
      have hlt : k < 30 := by
        by_contra hnot
        obtain rfl : k = 30 := by omega
        omega
      obtain ⟨n, hn, hkn, hle30, -⟩ := ih (k := k + 1) hlt (by omega)
      exact ⟨n, hn, by omega, hle30, fun _ => hkn⟩
    · rename_i hnot
      exact ⟨k, rfl, le_refl k, hk, fun hle => absurd hle hnot⟩

/-- `bh_create` makes a heap that is sound and empty, unless the array would have 31 levels. -/
theorem bhCreate_sound (cmp : α → α → Int) (memory : Nat → α) {size : Int} (hpos : 0 < size) (hlt : size < 2 ^ 31 - 1) :
    ∃ b, bhCreate memory size = done (some b) ∧ b.Sound cmp ∧ b.heapEnd = 0 := by
  have hloop : ∃ n, createLoop size.toNat 32 (2 ^ 0 - 1) 0 = done (2 ^ n - 1, n) ∧ 0 ≤ n ∧ n ≤ 30 ∧ (2 ^ (0 + 1) - 1 ≤ size.toNat → 0 < n) :=
    createLoop_spec (by omega) (by omega) (by omega)
  obtain ⟨n, hn, -, hle, hone⟩ := hloop
  have hnpos : 0 < n := hone (by omega)
  rw [bhCreate, if_neg (by omega)]
  change createLoop size.toNat 32 0 0 = _ at hn
  rw [hn]
  refine ⟨_, rfl, ⟨?_, ?_, ?_, ?_⟩, rfl⟩
  · show 2 ^ n - 1 = 2 ^ (n - 1 + 1) - 1
    rw [Nat.sub_add_cancel hnpos]
  · show n - 1 ≤ 30
    omega
  · show 0 < 2 ^ n - 1
    have hpow := Nat.one_lt_two_pow hnpos.ne'
    omega
  · intro i hi hend
    change i ≤ 0 at hend
    omega

/-- The number that is shifted for the next level has a sign. -/
theorem bhCreate_undefined (memory : Nat → α) : bhCreate memory (2 ^ 31 - 1) = undefined := by
  have hloop : createLoop (2 ^ 31 - 1 : Int).toNat 32 0 0 = undefined := by decide +kernel
  rw [bhCreate, if_neg (by decide), hloop]
  rfl

/-! ## Runs -/

namespace BhState

variable {s : BhState α} {a : BhCall α}

/-- What holds between the calls. -/
structure Inv (cmp : α → α → Int) (s : BhState α) : Prop where
  sound : s.bh.Sound cmp
  items : s.bh.items = s.held

theorem Inv.card_held (h : s.Inv cmp) : s.held.card = s.bh.heapEnd := by
  rw [← h.items, Bh.card_items]

theorem Inv.drains (hcmp : TotalPreorder cmp) (h : s.Inv cmp) : s.Drains cmp := by
  obtain ⟨xs, hxs, hordered, hitems⟩ := h.sound.popAll hcmp (Nat.lt_succ_self _)
  exact ⟨xs, hxs, hordered, hitems.trans h.items⟩

variable [DecidableEq α]

theorem Inv.right {t : BhState α} (hcmp : TotalPreorder cmp) (h : t.Inv cmp) (hanswers : s.Answers cmp a t) : s.Right cmp a t :=
  ⟨hanswers, h.sound.heaped, h.items, h.drains hcmp⟩

/-- A push does right exactly when there is room. -/
theorem Inv.push (hcmp : TotalPreorder cmp) (h : s.Inv cmp) (x : α) :
    s.held.card < 2 ^ 31 - 2 ∧ (s.call cmp (.push x)).Inv cmp ∧ s.Right cmp (.push x) (s.call cmp (.push x)) ∧
        (s.call cmp (.push x)).held.card = s.held.card + 1 ∨
      ¬s.held.card < 2 ^ 31 - 2 ∧ ¬s.Right cmp (.push x) (s.call cmp (.push x)) := by
  rw [h.card_held]
  rcases Classical.em (s.bh.heapEnd < 2 ^ 31 - 2) with hroom | hfull
  · obtain ⟨b, hb, hsound, hitems⟩ := h.sound.bhPush hcmp hroom x
    have hcall : s.call cmp (.push x) = ⟨b, x ::ₘ s.held, some (.rc 0)⟩ := by
      simp only [call, hb]
    have hinv : (s.call cmp (.push x)).Inv cmp := by
      rw [hcall]
      exact ⟨hsound, by rw [hitems, h.items]⟩
    refine .inl ⟨hroom, hinv, hinv.right hcmp ?_, ?_⟩
    · rw [hcall]
      exact ⟨rfl, rfl⟩
    · rw [hcall, Multiset.card_cons, h.card_held]
  · refine .inr ⟨hfull, ?_⟩
    rintro ⟨⟨hret, -⟩, -⟩
    simp only [call, h.sound.bhPush_undefined hfull] at hret
    cases hret

/-- A pop always does right. -/
theorem Inv.pop (hcmp : TotalPreorder cmp) (h : s.Inv cmp) :
    (s.call cmp .pop).Inv cmp ∧ s.Right cmp .pop (s.call cmp .pop) ∧ (s.call cmp .pop).held.card = s.held.card - 1 := by
  rcases Nat.eq_zero_or_pos s.bh.heapEnd with hzero | hpos
  · have hheld : s.held = 0 := by rw [← Multiset.card_eq_zero, h.card_held, hzero]
    have hcall : s.call cmp .pop = ⟨s.bh, s.held, some (.item none)⟩ := by
      simp only [call, Bh.bhPop_of_empty hzero, Option.elim_none]
    have hinv : (s.call cmp .pop).Inv cmp := by
      rw [hcall]
      exact ⟨h.sound, h.items⟩
    refine ⟨hinv, hinv.right hcmp (.inl ?_), ?_⟩
    · rw [hcall]
      exact ⟨rfl, hheld, hheld⟩
    · rw [hcall, hheld]
      rfl
  · obtain ⟨b, hb, hsound, hitems, hend⟩ := h.sound.bhPop hcmp hpos
    have hheld : s.held = s.bh.heap 1 ::ₘ b.items := h.items.symm.trans hitems
    have hcall : s.call cmp .pop = ⟨b, b.items, some (.item (some (s.bh.heap 1)))⟩ := by
      simp only [call, hb, Option.elim_some, hheld, Multiset.erase_cons_head]
    have hinv : (s.call cmp .pop).Inv cmp := by
      rw [hcall]
      exact ⟨hsound, rfl⟩
    refine ⟨hinv, hinv.right hcmp (.inr ⟨s.bh.heap 1, ?_, ?_⟩), ?_⟩
    · rw [hheld]
      exact Multiset.mem_cons_self _ _
    · rw [hcall]
      refine ⟨rfl, fun y hy => ?_, by rw [hheld, Multiset.erase_cons_head]⟩
      rw [← h.items] at hy
      obtain ⟨i, hi, rfl⟩ := mem_contents.1 hy
      exact h.sound.root hcmp (Finset.mem_Icc.1 hi).1 (Finset.mem_Icc.1 hi).2
    · rw [hcall, hheld, Multiset.card_cons, Nat.add_sub_cancel]

/-- The calls of a run do right exactly when there is always room. -/
theorem always_right_iff (hcmp : TotalPreorder cmp) (h : s.Inv cmp) (calls : List (BhCall α)) :
    Always (Right cmp) (play (fun s a => some (s.call cmp a)) s calls).1 ↔ Roomy s.held.card calls := by
  induction calls generalizing s with
  | nil => simp [play, Roomy]
  | cons a calls ih =>
    simp only [play, Always, List.forall_mem_cons]
    cases a with
    | push x =>
      rw [Roomy]
      rcases h.push hcmp x with ⟨hroom, hinv, hright, hcard⟩ | ⟨hfull, hwrong⟩
      · rw [and_iff_right hright, and_iff_right hroom, ← hcard]
        exact ih hinv
      · exact iff_of_false (fun hall => hwrong hall.1) fun hroomy => hfull hroomy.1
    | pop =>
      obtain ⟨hinv, hright, hcard⟩ := h.pop hcmp
      rw [Roomy, and_iff_right hright, ← hcard]
      exact ih hinv

/-- **A heap works, whatever is pushed and popped, exactly as long as it needs no more than 31 levels.** -/
theorem works_iff (hcmp : TotalPreorder cmp) (memory : Nat → α) {initialSize : Int} (hpos : 0 < initialSize)
    (hint : initialSize ≤ 2 ^ 31 - 1) (calls : List (BhCall α)) :
    Works cmp memory initialSize calls ↔ initialSize < 2 ^ 31 - 1 ∧ Roomy 0 calls := by
  rcases lt_or_eq_of_le hint with hlt | rfl
  · obtain ⟨b, hb, hsound, hend⟩ := bhCreate_sound cmp memory hpos hlt
    have hinv : (start b).Inv cmp := by
      refine ⟨hsound, ?_⟩
      rw [start, ← Multiset.card_eq_zero, Bh.card_items, hend]
    have hruns := always_right_iff hcmp hinv calls
    rw [and_iff_right hlt]
    constructor
    · rintro ⟨b', hb', halways⟩
      rw [hb] at hb'
      cases hb'
      exact hruns.1 halways
    · intro hroomy
      exact ⟨b, hb, hruns.2 hroomy⟩
  · refine iff_of_false ?_ fun h => lt_irrefl _ h.1
    rintro ⟨b, hb, -⟩
    rw [bhCreate_undefined] at hb
    cases hb

theorem works_two : Works (comparing Int.ofNat) (fun _ => 0) 1 [.push 1, .push 2, .pop] :=
  (works_iff (totalPreorder_comparing _) _ (by decide) (by decide) _).2 ⟨by decide, by decide, by decide, trivial⟩

/-- The greatest size that can be asked for. -/
theorem not_works : ¬∀ (cmp : Nat → Nat → Int), TotalPreorder cmp → ∀ (memory : Nat → Nat) (initialSize : Int),
    0 < initialSize → initialSize ≤ 2 ^ 31 - 1 → ∀ calls, Works cmp memory initialSize calls := by
  intro hall
  obtain ⟨b, hb, -⟩ := hall _ (totalPreorder_comparing Int.ofNat) (fun _ => 0) (2 ^ 31 - 1) (by decide) (by decide) []
  rw [bhCreate_undefined] at hb
  cases hb

end BhState

end CodeFactory.DataStructure
