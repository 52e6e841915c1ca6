import CodeFactory.Lib.Cells
import CodeFactory.Lib.Comparator
import CodeFactory.Lib.Loop
import Mathlib

/-!
# The sorting routines

The seven routines of the library, on an array of `size` cells. Indices are numbers with a sign; they stay between -701 and the size,
where they are not checked for an overflow. Traces are left out, memory is always there.
-/

namespace CodeFactory.DataStructure

open Outcome

universe u

inductive SortMode where
  | ascend
  | descend
  deriving DecidableEq, Repr

/-- A sum of two indices. -/
def addIndex (i j : Int) : Outcome Int := if i + j ≤ 2 ^ 31 - 1 then done (i + j) else undefined

section Source

variable {α : Type u} (cmp : α → α → Int) (mode : SortMode) (size : Int)

/-- `x` comes before `y` in the order of the mode. -/
def precedes (x y : α) : Bool := (mode = .ascend ∧ cmp x y < 0) ∨ (mode = .descend ∧ 0 < cmp x y)

/-- `x` comes behind `y` in the order of the mode. -/
def follows (x y : α) : Bool := (mode = .ascend ∧ 0 < cmp x y) ∨ (mode = .descend ∧ cmp x y < 0)

def readCell (array : Int → α) (i : Int) : Outcome α := if 0 ≤ i ∧ i < size then done (array i) else undefined

def writeCell (array : Int → α) (i : Int) (x : α) : Outcome (Int → α) :=
  if 0 ≤ i ∧ i < size then done (Function.update array i x) else undefined

/-- `swap`. -/
def swapCells (array : Int → α) (i j : Int) : Outcome (Int → α) :=
  (readCell size array i).bind fun _ => (readCell size array j).map fun _ => exchange array i j

/-- The round of a bubble sort, from the cell `k`: two cells are exchanged if they are in the wrong order. -/
def bubbleCell (k next : Int) (s : (Int → α) × Bool) : Outcome ((Int → α) × Bool) :=
  (readCell size s.1 k).bind fun x => (readCell size s.1 next).bind fun y =>
    if follows cmp mode x y then (swapCells size s.1 k next).map fun array => (array, true) else done s

def sortBubble (array : Int → α) : Outcome (Int → α) :=
  loop (fun (s : (Int → α) × Int) =>
    (forLoop 0 (s.2 - 1) (fun i => bubbleCell cmp mode size i (i + 1)) (s.1, false)).map fun
      | (array, true) => .inl (array, s.2 - 1)
      | (array, false) => .inr array) (size.toNat + 1) (array, size)

/-- The index of the greatest element between two cells. -/
def selectIndex (array : Int → α) (beginIndex endIndex : Int) : Outcome Int :=
  forLoop beginIndex endIndex (fun j tmpIndex =>
    (readCell size array j).bind fun x => (readCell size array tmpIndex).map fun y => if 0 < cmp x y then j else tmpIndex) beginIndex

def sortSelection (array : Int → α) : Outcome (Int → α) :=
  (forLoop 0 size (fun _ ((array, beginIndex, endIndex) : (Int → α) × Int × Int) =>
    (selectIndex cmp size array beginIndex endIndex).bind fun tmpIndex =>
      match mode with
      | .ascend => (swapCells size array tmpIndex (endIndex - 1)).map fun array => (array, beginIndex, endIndex - 1)
      | .descend => (swapCells size array tmpIndex beginIndex).map fun array => (array, beginIndex + 1, endIndex))
    (array, 0, size)).map Prod.fst

/-- The loop over the elements in front of the one that is inserted: they move on by `gap`. It ends with the array and the index, and
with whether there was a move. -/
def shiftCells (gap : Int) (tmp : α) (fuel : Nat) (array : Int → α) (k : Int) : Outcome ((Int → α) × Int × Bool) :=
  loop (fun (s : (Int → α) × Int × Bool) =>
    if 0 ≤ s.2.1 then
      (readCell size s.1 s.2.1).bind fun x =>
        if precedes cmp mode tmp x then (writeCell size s.1 (s.2.1 + gap) x).map fun array => .inl (array, s.2.1 - gap, true)
        else done (.inr s)
    else done (.inr s)) fuel (array, k, false)

def sortInsertion (array : Int → α) : Outcome (Int → α) :=
  forLoop 1 size (fun i array =>
    (readCell size array i).bind fun tmp => (shiftCells cmp mode size 1 tmp (size.toNat + 1) array (i - 1)).bind fun
      | (array, j, true) => writeCell size array (j + 1) tmp
      | (array, _, false) => done array) array

def quickPartition (array : Int → α) (left right pivot : Int) : Outcome ((Int → α) × Int) :=
  (readCell size array pivot).bind fun pivotValue => (swapCells size array pivot right).bind fun array =>
    (forLoop left right (fun i (s : (Int → α) × Int) =>
      (readCell size s.1 i).bind fun x =>
        if precedes cmp mode x pivotValue then (swapCells size s.1 i s.2).map fun array => (array, s.2 + 1) else done s)
      (array, left)).bind fun s => (swapCells size s.1 s.2 right).map fun array => (array, s.2)

def sortQuick : (fuel : Nat) → (array : Int → α) → (left right : Int) → Outcome (Int → α)
  | 0, _, _, _ => outOfFuel
  | fuel + 1, array, left, right =>
    if right ≤ left then done array
    else
      (quickPartition cmp mode size array left right (left + (right - left) / 2)).bind fun (array, pivotIndex) =>
        (sortQuick fuel array left (pivotIndex - 1)).bind fun array => sortQuick fuel array (pivotIndex + 1) right

/-- `temp[k++] = x`, in memory for `length` elements. -/
def putTemp (length : Int) (temp : List α) (x : α) : Outcome (List α) :=
  if temp.length < length then done (temp ++ [x]) else undefined

/-- `temp[k++] = array[begin++]`, up to an end. -/
def takeRest (array : Int → α) (length last : Int) (s : List α × Int) : Outcome (List α × Int) :=
  if s.2 ≤ last then (readCell size array s.2).bind fun x => (putTemp length s.1 x).map fun temp => (temp, s.2 + 1) else done s

def merge (array : Int → α) (first mid last : Int) : Outcome (Int → α) :=
  let length := last - first + 1
  (loop (fun (s : List α × Int × Int) =>
    if s.2.1 ≤ mid ∧ s.2.2 ≤ last then
      (readCell size array s.2.1).bind fun x => (readCell size array s.2.2).bind fun y =>
        if precedes cmp mode x y then (putTemp length s.1 x).map fun temp => .inl (temp, s.2.1 + 1, s.2.2)
        else (putTemp length s.1 y).map fun temp => .inl (temp, s.2.1, s.2.2 + 1)
    else done (.inr s)) (length.toNat + 1) ([], first, mid + 1)).bind fun s =>
  (loop (fun (s : List α × Int × Int) =>
    if s.2.1 ≤ mid ∨ s.2.2 ≤ last then
      (takeRest size array length mid (s.1, s.2.1)).bind fun (temp, begin1) =>
        (takeRest size array length last (temp, s.2.2)).map fun (temp, begin2) => .inl (temp, begin1, begin2)
    else done (.inr s.1)) (length.toNat + 1) s).bind fun temp =>
  forLoop 0 length (fun i array => (follow temp[i.toNat]?).bind fun x => writeCell size array (first + i) x) array

def sortMerge : (fuel : Nat) → (array : Int → α) → (first last : Int) → Outcome (Int → α)
  | 0, _, _, _ => outOfFuel
  | fuel + 1, array, first, last =>
    if last ≤ first then done array
    else
      (addIndex first last).bind fun sum =>
        let mid := sum / 2
        (sortMerge fuel array first mid).bind fun array => (sortMerge fuel array (mid + 1) last).bind fun array =>
          merge cmp mode size array first mid last

def shellGaps : List Int := [701, 301, 132, 57, 23, 10, 4, 1]

/-- The insertion sorts of all elements that are `gap` apart. -/
def shellGap (array : Int → α) (gap : Int) : Outcome (Int → α) :=
  forLoop gap size (fun j array =>
    (readCell size array j).bind fun tmp => (shiftCells cmp mode size gap tmp (size.toNat + 1) array (j - gap)).bind fun s =>
      writeCell size s.1 (s.2.1 + gap) tmp) array

def sortShell (array : Int → α) : Outcome (Int → α) := foldl (shellGap cmp mode size) array shellGaps

def combGaps : List Int := [11, 8, 6, 4, 3, 2, 1]

/-- The bubble sort of the elements that are `gap` apart, from `j` on: one loop over them. -/
def combPass (gap j : Int) (array : Int → α) : Outcome ((Int → α) × Bool) :=
  loop (fun (s : ((Int → α) × Bool) × Int) =>
    (addIndex s.2 gap).bind fun next =>
      if next < size then (bubbleCell cmp mode size s.2 next s.1).map fun t => .inl (t, next) else done (.inr s.1))
    (size.toNat + 1) ((array, false), j)

def combGap (array : Int → α) (gap : Int) : Outcome (Int → α) :=
  forLoop 0 gap (fun j array =>
    loop (fun array => (combPass cmp mode size gap j array).map fun
      | (array, true) => .inl array
      | (array, false) => .inr array) (size.toNat ^ 3 + 1) array) array

def sortComb (array : Int → α) : Outcome (Int → α) := foldl (combGap cmp mode size) array combGaps

end Source

inductive Routine where
  | bubble
  | selection
  | insertion
  | quick
  | merge
  | shell
  | comb
  deriving DecidableEq, Repr

/-- A routine on a whole array. -/
def Routine.run {α : Type u} (cmp : α → α → Int) (mode : SortMode) (size : Int) (array : Int → α) : Routine → Outcome (Int → α)
  | bubble => sortBubble cmp mode size array
  | selection => sortSelection cmp mode size array
  | insertion => sortInsertion cmp mode size array
  | quick => sortQuick cmp mode size (size.toNat + 1) array 0 (size - 1)
  | merge => sortMerge cmp mode size (size.toNat + 1) array 0 (size - 1)
  | shell => sortShell cmp mode size array
  | comb => sortComb cmp mode size array

/-- The comparator of the order of a mode. -/
def SortMode.order {α : Type u} (mode : SortMode) (cmp : α → α → Int) (x y : α) : Int :=
  match mode with
  | .ascend => cmp x y
  | .descend => -cmp x y

/-- What the cells from `lo` to `hi` hold is in order. -/
def SortedOn {α : Type u} (ord : α → α → Int) (lo hi : Int) (array : Int → α) : Prop :=
  ∀ p q, lo ≤ p → p < q → q < hi → ord (array p) (array q) ≤ 0

/-- A routine ends, accesses only the cells of the array, and leaves them sorted. -/
def Routine.Sorts {α : Type u} (cmp : α → α → Int) (mode : SortMode) (size : Int) (array : Int → α) (r : Routine) : Prop :=
  ∃ sorted, r.run cmp mode size array = done sorted ∧ Rearranged (Finset.Ico 0 size) array sorted ∧
    SortedOn (mode.order cmp) 0 size sorted

variable {α : Type u} {cmp : α → α → Int} {mode : SortMode} {size lo hi i j e : Int} {a b c : Int → α} {x y : α} {flag : Bool}

/-! ## Cells -/

theorem totalPreorder_order (hcmp : TotalPreorder cmp) (mode : SortMode) : TotalPreorder (mode.order cmp) := by
  cases mode with
  | ascend => exact hcmp
  | descend =>
    constructor
    · intro x y
      have hneg := hcmp.neg_iff y x
      simp only [SortMode.order]
      omega
    · intro x y z hxy hyz
      simp only [SortMode.order] at *
      have hyx := hcmp.trans_nonneg (a := x) (b := y) (c := z) (by omega) (by omega)
      omega

theorem precedes_iff : precedes cmp mode x y = true ↔ mode.order cmp x y < 0 := by
  cases mode <;> simp [precedes, SortMode.order]

theorem follows_iff : follows cmp mode x y = true ↔ 0 < mode.order cmp x y := by
  cases mode <;> simp [follows, SortMode.order]

theorem readCell_eq (hlo : 0 ≤ i) (hhi : i < size) : readCell size a i = done (a i) := if_pos ⟨hlo, hhi⟩

theorem writeCell_eq (hlo : 0 ≤ i) (hhi : i < size) : writeCell size a i x = done (Function.update a i x) := if_pos ⟨hlo, hhi⟩

theorem swapCells_eq (hi : 0 ≤ i ∧ i < size) (hj : 0 ≤ j ∧ j < size) : swapCells size a i j = done (exchange a i j) := by
  rw [swapCells, readCell_eq hi.1 hi.2, readCell_eq hj.1 hj.2]
  rfl

/-- Neighbours that are in order make a row that is. -/
theorem sortedOn_of_adjacent {ord : α → α → Int} (hord : TotalPreorder ord)
    (h : ∀ p, lo ≤ p → p + 1 < hi → ord (a p) (a (p + 1)) ≤ 0) : SortedOn ord lo hi a := by
  have hdist : ∀ n : Nat, ∀ p, lo ≤ p → p + n + 1 < hi → ord (a p) (a (p + n + 1)) ≤ 0 := by
    intro n
    induction n with
    | zero =>
      intro p hp hq
      have hone := h p hp (by omega)
      simpa using hone
    | succ n ih =>
      intro p hp hq
      have hstep := h (p + n + 1) (by omega) (by omega)
      rw [Nat.cast_succ, ← Int.add_assoc]
      exact hord.trans (ih p hp (by omega)) hstep
  intro p q hp hpq hq
  obtain ⟨n, rfl⟩ : ∃ n : Nat, q = p + n + 1 := ⟨(q - p - 1).toNat, by omega⟩
  exact hdist n p hp hq

theorem sortedOn_of_le {ord : α → α → Int} (h : hi ≤ lo + 1) : SortedOn ord lo hi a := by
  intro p q hp hpq hq
  omega

/-- Rounds with gaps, of which the last is one: that one sorts. -/
theorem foldl_gaps {ord : α → α → Int} {cells : Finset Int} {round : (Int → α) → Int → Outcome (Int → α)} {gaps : List Int}
    (hround : ∀ gap ∈ gaps, ∀ b, Rearranged cells a b →
      ∃ c, round b gap = done c ∧ Rearranged cells a c ∧ (gap = 1 → SortedOn ord 0 size c))
    (hlast : gaps.getLast? = some 1) (hre : Rearranged cells a b) :
    ∃ c, foldl round b gaps = done c ∧ Rearranged cells a c ∧ SortedOn ord 0 size c := by
  induction gaps generalizing b with
  | nil => cases hlast
  | cons gap gaps ih =>
    obtain ⟨c, hc, hre', hsorted⟩ := hround gap List.mem_cons_self b hre
    rw [foldl, hc, bind_done]
    cases gaps with
    | nil => exact ⟨c, rfl, hre', hsorted (Option.some.inj hlast)⟩
    | cons next gaps => exact ih (fun g hg => hround g (List.mem_cons_of_mem gap hg)) hlast hre'

end CodeFactory.DataStructure
