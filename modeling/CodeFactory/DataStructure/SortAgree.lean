import CodeFactory.DataStructure.Bh
import CodeFactory.DataStructure.Bst
import CodeFactory.DataStructure.SortDivide
import CodeFactory.DataStructure.SortExchange
import CodeFactory.DataStructure.SortInsert

/-!
# All routines sort

Whichever routine sorts an array, the result is the same but for the order of equal elements.
-/

namespace CodeFactory.DataStructure

open Outcome

universe u

variable {α : Type u} {cmp ord : α → α → Int} {mode : SortMode} {size i : Int} {array b c : Int → α}

/-- All routines sort, and what any two of them leave in a cell is equal. -/
def AllAgree (cmp : α → α → Int) (mode : SortMode) (size : Int) (array : Int → α) : Prop :=
  (∀ r : Routine, r.Sorts cmp mode size array) ∧
    ∀ (r r' : Routine) b b', r.run cmp mode size array = done b → r'.run cmp mode size array = done b' →
      ∀ i, 0 ≤ i → i < size → cmp (b i) (b' i) = 0

/-- Of two sorted arrays with the same contents, none has less in a cell: more cells of it would hold as little. -/
theorem SortedOn.not_less (hord : TotalPreorder ord) (hb : SortedOn ord 0 size b) (hc : SortedOn ord 0 size c)
    (hsame : contents b (Finset.Ico 0 size) = contents c (Finset.Ico 0 size)) (hi : 0 ≤ i) (hisize : i < size) : ¬ord (c i) (b i) < 0 := by
  intro hless
  have hcount := congrArg (Multiset.countP fun x => ord x (c i) ≤ 0) hsame
  rw [contents, contents, Multiset.countP_map, Multiset.countP_map] at hcount
  change ((Finset.Ico 0 size).filter fun j => ord (b j) (c i) ≤ 0).card = ((Finset.Ico 0 size).filter fun j => ord (c j) (c i) ≤ 0).card at hcount
  have hfew : ((Finset.Ico 0 size).filter fun j => ord (b j) (c i) ≤ 0) ⊆ Finset.Ico 0 i := by
    intro j hj
    obtain ⟨hmem, hle⟩ := Finset.mem_filter.1 hj
    have hmem' := Finset.mem_Ico.1 hmem
    refine Finset.mem_Ico.2 ⟨hmem'.1, Int.not_le.1 fun hij => ?_⟩
    have hback : ord (b i) (b j) ≤ 0 := by
      rcases eq_or_lt_of_le hij with rfl | hlt
      · exact (hord.self _).le
      · exact hb i j hi hlt hmem'.2
    have habove := hord.neg_of_neg_of_nonpos hless (hord.trans hback hle)
    rw [hord.self] at habove
    exact lt_irrefl 0 habove
  have hmany : Finset.Icc 0 i ⊆ (Finset.Ico 0 size).filter fun j => ord (c j) (c i) ≤ 0 := by
    intro j hj
    have hmem := Finset.mem_Icc.1 hj
    refine Finset.mem_filter.2 ⟨Finset.mem_Ico.2 ⟨hmem.1, by omega⟩, ?_⟩
    rcases eq_or_lt_of_le hmem.2 with rfl | hlt
    · exact (hord.self _).le
    · exact hc j i hmem.1 hlt hisize
  have hle := Finset.card_le_card hfew
  have hge := Finset.card_le_card hmany
  rw [Int.card_Ico] at hle
  rw [Int.card_Icc] at hge
  omega

/-- Every routine sorts an array that is not too long. -/
theorem Routine.sorts (hcmp : TotalPreorder cmp) (hsize : 0 ≤ size) (hint : size ≤ 2 ^ 30 + 1) (r : Routine) :
    r.Sorts cmp mode size array := by
  cases r with
  | bubble => exact sortBubble_spec hcmp
  | selection => exact sortSelection_spec hcmp hsize
  | insertion => exact sortInsertion_spec hcmp
  | quick =>
    have hcells : Finset.Icc 0 (size - 1) = Finset.Ico 0 size := by
      ext p
      rw [Finset.mem_Icc, Finset.mem_Ico]
      omega
    have hquick := sortQuick_spec hcmp mode array (le_refl 0) (show size - 1 < size by omega)
      (show (size - 1 - 0 + 1).toNat < size.toNat + 1 by omega)
    rwa [hcells, Int.sub_add_cancel] at hquick
  | merge =>
    have hmerge := sortMerge_spec hcmp mode array (le_refl 0) (show size - 1 < size by omega) hint
      (show (size - 1 - 0 + 1).toNat < size.toNat + 1 by omega)
    rwa [Int.sub_add_cancel] at hmerge
  | shell => exact sortShell_spec hcmp
  | comb => exact sortComb_spec hcmp hint

/-- Routines that sort agree. -/
theorem Routine.Sorts.agree (hcmp : TotalPreorder cmp) {r r' : Routine} (h : r.Sorts cmp mode size array) (h' : r'.Sorts cmp mode size array)
    (hb : r.run cmp mode size array = done b) (hc : r'.run cmp mode size array = done c) (hi : 0 ≤ i) (hisize : i < size) :
    cmp (b i) (c i) = 0 := by
  have hord := totalPreorder_order hcmp mode
  obtain ⟨b', hb', hbre, hbsorted⟩ := h
  obtain ⟨c', hc', hcre, hcsorted⟩ := h'
  obtain rfl : b' = b := by
    rw [hb] at hb'
    cases hb'
    rfl
  obtain rfl : c' = c := by
    rw [hc] at hc'
    cases hc'
    rfl
  have hless := hbsorted.not_less hord hcsorted (hbre.same.trans hcre.same.symm) hi hisize
  have hless' := hcsorted.not_less hord hbsorted (hcre.same.trans hbre.same.symm) hi hisize
  have hback := hord.neg_iff (c' i) (b' i)
  have hzero : mode.order cmp (b' i) (c' i) = 0 := by omega
  cases mode with
  | ascend => exact hzero
  | descend => exact neg_eq_zero.1 hzero

/-- **All routines sort an array and agree exactly when its length is at most 2³⁰ + 1.** -/
theorem allAgree_iff (hcmp : TotalPreorder cmp) (mode : SortMode) (array : Int → α) (hsize : 0 ≤ size) (hint : size ≤ 2 ^ 31 - 1) :
    AllAgree cmp mode size array ↔ size ≤ 2 ^ 30 + 1 := by
  constructor
  · rintro ⟨hsorts, -⟩
    by_contra hlong
    obtain ⟨b, hb, -⟩ := hsorts .merge
    exact sortMerge_overflow (le_refl 0) (by omega) (by omega) b hb
  · intro hle
    have hsorts : ∀ r : Routine, r.Sorts cmp mode size array := fun r => r.sorts hcmp hsize hle
    exact ⟨hsorts, fun r r' b b' hb hb' i hi hisize => (hsorts r).agree hcmp (hsorts r') hb hb' hi hisize⟩

theorem allAgree_three : AllAgree (comparing Int.ofNat) .descend 3 (fun i => i.toNat % 2) :=
  (allAgree_iff (totalPreorder_comparing _) _ _ (by decide) (by decide)).2 (by decide)

/-- An array of 2³⁰ + 2 elements. -/
theorem not_allAgree : ¬∀ (cmp : Nat → Nat → Int), TotalPreorder cmp → ∀ (mode : SortMode) (size : Int) (array : Int → Nat),
    0 ≤ size → size ≤ 2 ^ 31 - 1 → AllAgree cmp mode size array := by
  intro hall
  obtain ⟨hsorts, -⟩ := hall _ (totalPreorder_comparing Int.ofNat) .ascend (2 ^ 30 + 2) (fun _ => 0) (by decide) (by decide)
  obtain ⟨b, hb, -⟩ := hsorts .merge
  exact sortMerge_overflow (le_refl 0) (by decide) (by decide) b hb

/-! ## Heaps and trees -/

/-- The cells of a list, in an array. -/
def listArray (x : α) (xs : List α) (i : Int) : α := xs.getD i.toNat x

theorem contents_listArray (x : α) (xs : List α) : contents (listArray x xs) (Finset.Ico 0 xs.length) = xs := by
  have hcells : (Finset.Ico (0 : Int) xs.length).val = Multiset.map Int.ofNat (Multiset.range xs.length) := by
    change Multiset.map (fun n : Nat => (0 : Int) + n) (Multiset.range ((xs.length : Int) - 0).toNat) = _
    simp
  rw [contents, hcells, Multiset.map_map, Multiset.range, Multiset.map_coe]
  congr 1
  exact List.ext_getElem (by simp) fun i _ h => by simp [listArray, h]

/-- What a sorted list has in a place is equal to what a sorted array of the same contents has there. -/
theorem SortedOn.agree_list (hord : TotalPreorder ord) {xs ys : List α} {x : α} (hb : SortedOn ord 0 ys.length b)
    (hsame : contents b (Finset.Ico 0 ys.length) = ys) (hxs : xs.Pairwise fun x y => ord x y ≤ 0) (hperm : (xs : Multiset α) = ys)
    {i : Nat} (hi : i < ys.length) : ord (xs.getD i x) (b i) = 0 := by
  have hlength : xs.length = ys.length := (Multiset.coe_eq_coe.1 hperm).length_eq
  have hsorted : SortedOn ord 0 ys.length (listArray x xs) := by
    intro p q hp hpq hq
    have hpair := List.pairwise_iff_getElem.1 hxs p.toNat q.toNat (by omega) (by omega) (by omega)
    rwa [listArray, listArray, List.getD_eq_getElem, List.getD_eq_getElem]
  have hcontents : contents (listArray x xs) (Finset.Ico 0 ys.length) = contents b (Finset.Ico 0 ys.length) := by
    rw [hsame, ← hperm, ← contents_listArray x xs, hlength]
  have hless := hb.not_less hord hsorted hcontents.symm (Int.natCast_nonneg i) (by omega)
  have hless' := hsorted.not_less hord hb hcontents (Int.natCast_nonneg i) (by omega)
  have hback := hord.neg_iff (b i) (listArray x xs i)
  rw [listArray, Int.toNat_natCast] at *
  omega

variable [DecidableEq α] {cmp : Option α → Option α → Int}

/-- A tree that items are inserted into, one after the other. -/
def insertAll (cmp : Option α → Option α → Int) (items : List (Option α)) : Bst α :=
  items.foldl (fun s item => s.call cmp (.insert item)) Bst.empty

/-- A heap that items are pushed on, one after the other. -/
def pushAll (cmp : Option α → Option α → Int) (h : Bh (Option α)) (items : List (Option α)) : BhState (Option α) :=
  items.foldl (fun s item => s.call cmp (.push item)) (BhState.start h)

theorem insertAll_sound (hcmp : TotalPreorder cmp) (items : List (Option α)) :
    (insertAll cmp items).Sound cmp ∧ (insertAll cmp items).held = items := by
  induction items using List.reverseRecOn with
  | nil => exact ⟨Bst.empty_sound, rfl⟩
  | append_singleton items item ih =>
    rw [insertAll, List.foldl_append]
    obtain ⟨hsound, -, hheld⟩ := ih.1.insert hcmp item
    refine ⟨hsound, hheld.trans ?_⟩
    rw [ih.2]
    exact Multiset.coe_eq_coe.2 (List.perm_append_singleton item items).symm

theorem pushAll_inv (hcmp : TotalPreorder cmp) {h : Bh (Option α)} (hsound : h.Sound cmp) (hempty : h.heapEnd = 0) (items : List (Option α))
    (hlength : items.length < 2 ^ 31 - 1) : (pushAll cmp h items).Inv cmp ∧ (pushAll cmp h items).held = items := by
  induction items using List.reverseRecOn with
  | nil => exact ⟨⟨hsound, Multiset.card_eq_zero.1 ((Bh.card_items h).trans hempty)⟩, rfl⟩
  | append_singleton items item ih =>
    rw [List.length_append, List.length_singleton] at hlength
    obtain ⟨hinv, hheld⟩ := ih (by omega)
    rw [pushAll, List.foldl_append]
    obtain ⟨-, hinv', hright, -⟩ | ⟨hfull, -⟩ := hinv.push hcmp item
    · refine ⟨hinv', hright.1.2.trans ?_⟩
      rw [hheld]
      exact Multiset.coe_eq_coe.2 (List.perm_append_singleton item items).symm
    · rw [hheld, Multiset.coe_card] at hfull
      omega

/-- **A tree, a heap and the routines agree**: some items that are inserted into a tree are shown in the order in which a routine leaves
them in an array, and when they are pushed on a heap they are popped in the order of a descending sort, but for equal items. -/
theorem orders_agree (hcmp : TotalPreorder cmp) (memory : Nat → Option α) {initialSize : Int} (hpos : 0 < initialSize)
    (hlt : initialSize < 2 ^ 31 - 1) (items : List (Option α)) (hlength : items.length ≤ 2 ^ 30 + 1) (r : Routine) :
    ∃ h xs ys b c, bhCreate memory initialSize = done (some h) ∧ (insertAll cmp items).root.inOrderEntry = done xs ∧
      (pushAll cmp h items).bh.popAll cmp (items.length + 1) = done ys ∧
      r.run cmp .ascend items.length (listArray none items) = done b ∧ r.run cmp .descend items.length (listArray none items) = done c ∧
      ∀ i < items.length, cmp (xs.getD i none) (b i) = 0 ∧ cmp (ys.getD i none) (c i) = 0 := by
  obtain ⟨h, hcreate, hsound, hempty⟩ := bhCreate_sound cmp memory hpos hlt
  obtain ⟨htree, htreeHeld⟩ := insertAll_sound hcmp items
  obtain ⟨xs, hxs, hxsOrder, hxsItems⟩ := htree.inOrder
  obtain ⟨hheap, hheapHeld⟩ := pushAll_inv hcmp hsound hempty items (by omega)
  obtain ⟨ys, hys, hysOrder, hysItems⟩ := hheap.drains hcmp
  rw [← hheap.card_held, hheapHeld, Multiset.coe_card] at hys
  have hsorts : ∀ mode, r.Sorts cmp mode items.length (listArray none items) := fun _ => r.sorts hcmp (Int.natCast_nonneg _) (by omega)
  obtain ⟨b, hb, hbre, hbsorted⟩ := hsorts .ascend
  obtain ⟨c, hc, hcre, hcsorted⟩ := hsorts .descend
  refine ⟨h, xs, ys, b, c, hcreate, hxs, hys, hb, hc, fun i hi => ⟨?_, ?_⟩⟩
  · exact hbsorted.agree_list hcmp (hbre.same.trans (contents_listArray none items)) hxsOrder (hxsItems.trans htreeHeld) hi
  · refine neg_eq_zero.1 (hcsorted.agree_list (totalPreorder_order hcmp .descend) (hcre.same.trans (contents_listArray none items)) ?_
      (hysItems.trans hheapHeld) hi)
    exact hysOrder.imp fun hle => Int.neg_nonpos_of_nonneg hle

theorem orders_agree_two : ∃ h xs ys b c, bhCreate (fun _ => none) 1 = done (some h) ∧
    (insertAll Bst.byNumber [some 5, some 3]).root.inOrderEntry = done xs ∧
    (pushAll Bst.byNumber h [some 5, some 3]).bh.popAll Bst.byNumber 3 = done ys ∧
    Routine.quick.run Bst.byNumber .ascend 2 (listArray none [some 5, some 3]) = done b ∧
    Routine.quick.run Bst.byNumber .descend 2 (listArray none [some 5, some 3]) = done c ∧
    ∀ i < 2, Bst.byNumber (xs.getD i none) (b i) = 0 ∧ Bst.byNumber (ys.getD i none) (c i) = 0 :=
  orders_agree (totalPreorder_comparing _) (fun _ => none) Int.one_pos (by decide) [some 5, some 3] (by decide) .quick

end CodeFactory.DataStructure
