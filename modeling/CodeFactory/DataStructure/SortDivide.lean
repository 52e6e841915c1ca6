import CodeFactory.DataStructure.Sort
import Mathlib.Algebra.Order.Interval.Finset.SuccPred
import Mathlib.Data.Int.SuccPred

/-!
# Sorting by division

Quicksort and merge sort.
-/

namespace CodeFactory.DataStructure

open Outcome

universe u

variable {α : Type u} {cmp : α → α → Int} {mode : SortMode} {size left right first mid last : Int} {a b : Int → α} {fuel : Nat}

/-! ## Quicksort -/

/-- What the loop over the elements between `left` and `right` has done: those in front of the store index come before the pivot, the
others do not. -/
structure Parted (ord : α → α → Int) (left right : Int) (a : Int → α) (pivotValue : α) (i : Int) (s : (Int → α) × Int) : Prop where
  re : Rearranged (Finset.Icc left right) a s.1
  store : left ≤ s.2 ∧ s.2 ≤ i
  pivot : s.1 right = pivotValue
  before : ∀ p, left ≤ p → p < s.2 → ord (s.1 p) pivotValue < 0
  behind : ∀ p, s.2 ≤ p → p < i → 0 ≤ ord (s.1 p) pivotValue

theorem quickPartition_spec (hcmp : TotalPreorder cmp) (mode : SortMode) (a : Int → α) {pivot : Int} (hleft : 0 ≤ left) (hright : right < size)
    (hpivot : left ≤ pivot ∧ pivot ≤ right) :
    ∃ s, quickPartition cmp mode size a left right pivot = done s ∧ Rearranged (Finset.Icc left right) a s.1 ∧
      (left ≤ s.2 ∧ s.2 ≤ right) ∧ (∀ p, left ≤ p → p < s.2 → mode.order cmp (s.1 p) (s.1 s.2) ≤ 0) ∧
      ∀ p, s.2 < p → p ≤ right → mode.order cmp (s.1 s.2) (s.1 p) ≤ 0 := by
  have hord := totalPreorder_order hcmp mode
  have hmem : ∀ {p}, left ≤ p → p ≤ right → p ∈ Finset.Icc left right := fun hl hr => Finset.mem_Icc.2 ⟨hl, hr⟩
  have hloop : ∃ s, forLoop left right (fun i (s : (Int → α) × Int) =>
      (readCell size s.1 i).bind fun x =>
        if precedes cmp mode x (a pivot) then (swapCells size s.1 i s.2).map fun array => (array, s.2 + 1) else done s)
      (exchange a pivot right, left) = done s ∧ Parted (mode.order cmp) left right a (a pivot) right s := by
    refine forLoop_spec (I := Parted (mode.order cmp) left right a (a pivot)) (by omega) ?_
      ⟨Rearranged.of_exchange (hmem hpivot.1 hpivot.2) (hmem (by omega) (le_refl right)), ⟨le_refl left, le_refl left⟩, exchange_right, ?_, ?_⟩
    · rintro i ⟨b, store⟩ hi hiright ⟨hre, hstore, hlast, hbefore, hbehind⟩
      dsimp only at hre hstore hlast hbefore hbehind ⊢
      rw [readCell_eq (by omega) (by omega), bind_done]
      split
      · rename_i hless
        rw [swapCells_eq ⟨by omega, by omega⟩ ⟨by omega, by omega⟩]
        refine ⟨_, rfl, hre.trans (Rearranged.of_exchange (hmem hi hiright.le) (hmem hstore.1 (by omega))), ?_, ?_, ?_, ?_⟩
        · exact ⟨show left ≤ store + 1 by omega, show store + 1 ≤ i + 1 by omega⟩
        · dsimp only
          rw [exchange_of_ne (by omega) (by omega)]
          exact hlast
        · intro p hp hpstore
          dsimp only at hpstore ⊢
          rcases eq_or_lt_of_le (Int.lt_add_one_iff.1 hpstore) with rfl | hlt
          · rw [exchange_right]
            exact precedes_iff.1 hless
          · rw [exchange_of_ne (by omega) (by omega)]
            exact hbefore p hp hlt
        · intro p hp hpi
          dsimp only at hp ⊢
          rcases eq_or_lt_of_le (Int.lt_add_one_iff.1 hpi) with rfl | hlt
          · rw [exchange_left]
            exact hbehind store (le_refl store) (by omega)
          · rw [exchange_of_ne (by omega) (by omega)]
            exact hbehind p (by omega) hlt
      · rename_i hnot
        refine ⟨_, rfl, hre, ⟨hstore.1, show store ≤ i + 1 by omega⟩, hlast, hbefore, fun p hp hpi => ?_⟩
        rcases eq_or_lt_of_le (Int.lt_add_one_iff.1 hpi) with rfl | hlt
        · exact Int.not_lt.1 fun hlt => hnot (precedes_iff.2 hlt)
        · exact hbehind p hp hlt
    · intro p hp hpleft
      dsimp only at hpleft
      omega
    · intro p hp hpleft
      dsimp only at hp
      omega
  obtain ⟨⟨b, store⟩, hb, hre, hstore, hlast, hbefore, hbehind⟩ := hloop
  dsimp only at hre hstore hlast hbefore hbehind
  unfold quickPartition
  rw [readCell_eq (by omega) (by omega), bind_done, swapCells_eq ⟨by omega, by omega⟩ ⟨by omega, by omega⟩, bind_done, hb, bind_done,
    swapCells_eq ⟨by omega, by omega⟩ ⟨by omega, by omega⟩]
  refine ⟨_, rfl, hre.trans (Rearranged.of_exchange (hmem hstore.1 hstore.2) (hmem (by omega) (le_refl right))), hstore, ?_, ?_⟩
  · intro p hp hpstore
    dsimp only at hpstore ⊢
    rw [exchange_left, hlast, exchange_of_ne (by omega) (by omega)]
    exact (hbefore p hp hpstore).le
  · intro p hpstore hp
    dsimp only at hpstore ⊢
    rw [exchange_left, hlast]
    rcases eq_or_ne p right with rfl | hpr
    · rw [exchange_right]
      exact hord.nonpos_iff.2 (hbehind store (le_refl store) hpstore)
    · rw [exchange_of_ne (by omega) hpr]
      exact hord.nonpos_iff.2 (hbehind p hpstore.le (by omega))

/-- What is in order between two cells stays so where nothing changes. -/
theorem SortedOn.congr {ord : α → α → Int} {lo hi : Int} (h : SortedOn ord lo hi a) (heq : ∀ p, lo ≤ p → p < hi → b p = a p) :
    SortedOn ord lo hi b := by
  intro p q hp hpq hq
  rw [heq p hp (by omega), heq q (by omega) hq]
  exact h p q hp hpq hq

/-- Two rows in order, and between them what comes behind the one and before the other. -/
theorem sortedOn_of_pivot {ord : α → α → Int} (hord : TotalPreorder ord) {lo hi k : Int} (hfront : SortedOn ord lo k a)
    (hback : SortedOn ord (k + 1) hi a) (hbefore : ∀ p, lo ≤ p → p < k → ord (a p) (a k) ≤ 0)
    (hbehind : ∀ p, k < p → p < hi → ord (a k) (a p) ≤ 0) : SortedOn ord lo hi a := by
  intro p q hp hpq hq
  rcases lt_trichotomy q k with hlt | rfl | hgt
  · exact hfront p q hp hpq hlt
  · exact hbefore p hp hpq
  rcases lt_trichotomy p k with hplt | rfl | hpgt
  · exact hord.trans (hbefore p hp hplt) (hbehind q hgt hq)
  · exact hbehind q hgt hq
  · exact hback p q hpgt hpq hq

theorem sortQuick_spec (hcmp : TotalPreorder cmp) (mode : SortMode) (a : Int → α) (hleft : 0 ≤ left) (hright : right < size)
    (hfuel : (right - left + 1).toNat < fuel) :
    ∃ b, sortQuick cmp mode size fuel a left right = done b ∧ Rearranged (Finset.Icc left right) a b ∧
      SortedOn (mode.order cmp) left (right + 1) b := by
  have hord := totalPreorder_order hcmp mode
  induction fuel generalizing a left right with
  | zero => omega
  | succ fuel ih =>
    rw [sortQuick]
    split
    · exact ⟨a, rfl, Rearranged.refl _ a, sortedOn_of_le (by omega)⟩
    rename_i hlt
    obtain ⟨⟨c, k⟩, hc, hre, hk, hbefore, hbehind⟩ := quickPartition_spec hcmp mode a hleft hright
      (show left ≤ left + (right - left) / 2 ∧ left + (right - left) / 2 ≤ right by omega)
    dsimp only at hre hk hbefore hbehind
    obtain ⟨d, hd, hfront, hdsorted⟩ := @ih left (k - 1) c hleft (by omega) (by omega)
    obtain ⟨b, hb, hback, hbsorted⟩ := @ih (k + 1) right d (by omega) hright (by omega)
    rw [hc, bind_done]
    dsimp only
    rw [hd, bind_done]
    refine ⟨b, hb, (hre.trans (hfront.mono ?_)).trans (hback.mono ?_), ?_⟩
    · exact Finset.Icc_subset_Icc_right (by omega)
    · exact Finset.Icc_subset_Icc_left (by omega)
    have hbd : ∀ p, p ≤ k → b p = d p := fun p hp => hback.outside p fun hmem => by
      have hmem' := Finset.mem_Icc.1 hmem
      omega
    have hdc : ∀ p, k ≤ p → d p = c p := fun p hp => hfront.outside p fun hmem => by
      have hmem' := Finset.mem_Icc.1 hmem
      omega
    have hbk : b k = c k := (hbd k (le_refl k)).trans (hdc k (le_refl k))
    rw [Int.sub_add_cancel] at hdsorted
    refine sortedOn_of_pivot hord (hdsorted.congr fun p _ hp => hbd p hp.le) hbsorted (fun p hp hpk => ?_) fun p hpk hp => ?_
    · obtain ⟨j, hj, heq⟩ := hfront.exists_mem (Finset.mem_Icc.2 ⟨hp, show p ≤ k - 1 by omega⟩)
      have hj' := Finset.mem_Icc.1 hj
      rw [hbd p hpk.le, heq, hbk]
      exact hbefore j hj'.1 (by omega)
    · obtain ⟨j, hj, heq⟩ := hback.exists_mem (Finset.mem_Icc.2 ⟨show k + 1 ≤ p by omega, show p ≤ right by omega⟩)
      have hj' := Finset.mem_Icc.1 hj
      rw [heq, hbk, hdc j (by omega)]
      exact hbehind j (by omega) hj'.2

/-! ## Merge sort -/

/-- What has been taken from the two halves: it is in order, and comes before what is left of them. -/
structure Merged (ord : α → α → Int) (a : Int → α) (first mid last : Int) (s : List α × Int × Int) : Prop where
  front : first ≤ s.2.1 ∧ s.2.1 ≤ mid + 1
  back : mid + 1 ≤ s.2.2 ∧ s.2.2 ≤ last + 1
  length : (s.1.length : Int) = s.2.1 - first + (s.2.2 - (mid + 1))
  items : (s.1 : Multiset α) + contents a (Finset.Ico s.2.1 (mid + 1)) + contents a (Finset.Ico s.2.2 (last + 1)) =
    contents a (Finset.Ico first (last + 1))
  inOrder : s.1.Pairwise fun x y => ord x y ≤ 0
  before : ∀ x ∈ s.1, ∀ p, (s.2.1 ≤ p ∧ p ≤ mid) ∨ (s.2.2 ≤ p ∧ p ≤ last) → ord x (a p) ≤ 0

variable {ord : α → α → Int} {temp : List α} {begin1 begin2 : Int}

theorem contents_Ico {lo hi : Int} (h : lo < hi) : contents a (Finset.Ico lo hi) = a lo ::ₘ contents a (Finset.Ico (lo + 1) hi) := by
  rw [← Finset.insert_Ico_add_one_left_eq_Ico h, contents_insert]
  rw [Finset.mem_Ico]
  omega

theorem contents_append {lo k hi : Int} (hlo : lo ≤ k) (hhi : k ≤ hi) :
    contents a (Finset.Ico lo k) + contents a (Finset.Ico k hi) = contents a (Finset.Ico lo hi) := by
  rw [← Finset.Ico_union_Ico_eq_Ico hlo hhi, ← Finset.disjUnion_eq_union _ _ (Finset.Ico_disjoint_Ico_consecutive lo k hi), contents, contents,
    contents, ← Multiset.map_add]
  rfl

/-- The next element of the first half is taken. -/
theorem Merged.takeFront (h : Merged ord a first mid last (temp, begin1, begin2)) (hfront : SortedOn ord first (mid + 1) a)
    (hle : begin1 ≤ mid) (hless : ∀ p, begin2 ≤ p → p ≤ last → ord (a begin1) (a p) ≤ 0) :
    Merged ord a first mid last (temp ++ [a begin1], begin1 + 1, begin2) := by
  obtain ⟨hb1, hb2, hlength, hitems, hinOrder, hbefore⟩ := h
  dsimp only at hb1 hb2 hlength hitems hinOrder hbefore
  refine ⟨?_, hb2, ?_, ?_, ?_, ?_⟩
  · dsimp only
    omega
  · rw [List.length_append, List.length_singleton]
    dsimp only
    omega
  · dsimp only
    rw [← hitems, contents_Ico (show begin1 < mid + 1 by omega), ← Multiset.coe_add, Multiset.coe_singleton, ← Multiset.singleton_add,
      Multiset.add_assoc (temp : Multiset α)]
  · rw [List.pairwise_append]
    refine ⟨hinOrder, List.pairwise_singleton _ _, fun x hx y hy => ?_⟩
    rw [List.mem_singleton.1 hy]
    exact hbefore x hx begin1 (.inl ⟨le_refl begin1, hle⟩)
  · intro x hx p hp
    dsimp only at hp
    rcases List.mem_append.1 hx with hx | hx
    · exact hbefore x hx p (by omega)
    · rw [List.mem_singleton.1 hx]
      rcases hp with hp | hp
      · exact hfront begin1 p hb1.1 (by omega) (by omega)
      · exact hless p hp.1 hp.2

/-- The next element of the second half is taken. -/
theorem Merged.takeBack (h : Merged ord a first mid last (temp, begin1, begin2)) (hback : SortedOn ord (mid + 1) (last + 1) a)
    (hle : begin2 ≤ last) (hless : ∀ p, begin1 ≤ p → p ≤ mid → ord (a begin2) (a p) ≤ 0) :
    Merged ord a first mid last (temp ++ [a begin2], begin1, begin2 + 1) := by
  obtain ⟨hb1, hb2, hlength, hitems, hinOrder, hbefore⟩ := h
  dsimp only at hb1 hb2 hlength hitems hinOrder hbefore
  refine ⟨hb1, ?_, ?_, ?_, ?_, ?_⟩
  · dsimp only
    omega
  · rw [List.length_append, List.length_singleton]
    dsimp only
    omega
  · dsimp only
    rw [← hitems, contents_Ico (show begin2 < last + 1 by omega), ← Multiset.coe_add, Multiset.coe_singleton, ← Multiset.singleton_add,
      add_right_comm (temp : Multiset α), Multiset.add_assoc]
  · rw [List.pairwise_append]
    refine ⟨hinOrder, List.pairwise_singleton _ _, fun x hx y hy => ?_⟩
    rw [List.mem_singleton.1 hy]
    exact hbefore x hx begin2 (.inr ⟨le_refl begin2, hle⟩)
  · intro x hx p hp
    dsimp only at hp
    rcases List.mem_append.1 hx with hx | hx
    · exact hbefore x hx p (by omega)
    · rw [List.mem_singleton.1 hx]
      rcases hp with hp | hp
      · exact hless p hp.1 hp.2
      · exact hback begin2 p hb2.1 (by omega) (by omega)

/-- There is room for what is left. -/
theorem Merged.putTemp (h : Merged ord a first mid last (temp, begin1, begin2)) (hleft : begin1 ≤ mid ∨ begin2 ≤ last) (x : α) :
    putTemp (last - first + 1) temp x = done (temp ++ [x]) := by
  obtain ⟨hb1, hb2, hlength, -, -, -⟩ := h
  dsimp only at hb1 hb2 hlength
  exact if_pos (by omega)

/-- The first loop of `merge`: it ends where one half is empty. -/
theorem mergeLoop_spec (hcmp : TotalPreorder cmp) (mode : SortMode) (a : Int → α) (hfirst : 0 ≤ first) (hmid : first ≤ mid ∧ mid < last)
    (hlast : last < size) (hfront : SortedOn (mode.order cmp) first (mid + 1) a) (hback : SortedOn (mode.order cmp) (mid + 1) (last + 1) a) :
    ∃ s, loop (fun (s : List α × Int × Int) =>
      if s.2.1 ≤ mid ∧ s.2.2 ≤ last then
        (readCell size a s.2.1).bind fun x => (readCell size a s.2.2).bind fun y =>
          if precedes cmp mode x y then (DataStructure.putTemp (last - first + 1) s.1 x).map fun temp => .inl (temp, s.2.1 + 1, s.2.2)
          else (DataStructure.putTemp (last - first + 1) s.1 y).map fun temp => .inl (temp, s.2.1, s.2.2 + 1)
      else done (.inr s)) ((last - first + 1).toNat + 1) ([], first, mid + 1) = done s ∧
      Merged (mode.order cmp) a first mid last s ∧ (mid < s.2.1 ∨ last < s.2.2) := by
  have hord := totalPreorder_order hcmp mode
  refine loop_spec (I := Merged (mode.order cmp) a first mid last) (fun s => (mid + 1 - s.2.1 + (last + 1 - s.2.2)).toNat) ?_
    (by dsimp only; omega) ⟨?_, ?_, ?_, ?_, List.Pairwise.nil, fun x hx => nomatch hx⟩
  · rintro ⟨temp, begin1, begin2⟩ h
    have hb1 := h.front
    have hb2 := h.back
    dsimp only at hb1 hb2 ⊢
    split
    · rename_i hboth
      rw [readCell_eq (by omega) (by omega), bind_done, readCell_eq (by omega) (by omega), bind_done]
      split
      · rename_i hless
        have hneg := precedes_iff.1 hless
        rw [h.putTemp (.inl hboth.1)]
        refine .inl ⟨_, rfl, h.takeFront hfront hboth.1 fun p hp hple => ?_, by dsimp only; omega⟩
        rcases eq_or_lt_of_le hp with rfl | hlt
        · exact hneg.le
        · exact hord.trans hneg.le (hback begin2 p hb2.1 hlt (by omega))
      · rename_i hnot
        have hnonneg : 0 ≤ mode.order cmp (a begin1) (a begin2) := Int.not_lt.1 fun hneg => hnot (precedes_iff.2 hneg)
        rw [h.putTemp (.inr hboth.2)]
        refine .inl ⟨_, rfl, h.takeBack hback hboth.2 fun p hp hple => ?_, by dsimp only; omega⟩
        rcases eq_or_lt_of_le hp with rfl | hlt
        · exact hord.nonpos_iff.2 hnonneg
        · exact hord.trans (hord.nonpos_iff.2 hnonneg) (hfront begin1 p hb1.1 hlt (by omega))
    · rename_i hend
      exact .inr ⟨_, rfl, h, by dsimp only; omega⟩
  · dsimp only
    omega
  · dsimp only
    omega
  · dsimp only
    rw [List.length_nil]
    omega
  · dsimp only
    rw [Multiset.coe_nil, Multiset.zero_add]
    exact contents_append (by omega) (by omega)

/-- The second loop of `merge` takes what is left of the other half. -/
theorem restLoop_spec {s : List α × Int × Int} (h : Merged ord a first mid last s) (hempty : mid < s.2.1 ∨ last < s.2.2) (hfirst : 0 ≤ first)
    (hlast : mid < last ∧ last < size) (hfront : SortedOn ord first (mid + 1) a) (hback : SortedOn ord (mid + 1) (last + 1) a) :
    ∃ temp, loop (fun (s : List α × Int × Int) =>
      if s.2.1 ≤ mid ∨ s.2.2 ≤ last then
        (takeRest size a (last - first + 1) mid (s.1, s.2.1)).bind fun (temp, begin1) =>
          (takeRest size a (last - first + 1) last (temp, s.2.2)).map fun (temp, begin2) => .inl (temp, begin1, begin2)
      else done (.inr s.1)) ((last - first + 1).toNat + 1) s = done temp ∧
      Merged ord a first mid last (temp, mid + 1, last + 1) := by
  have hfront' := h.front
  have hback' := h.back
  refine loop_spec (I := fun s => Merged ord a first mid last s ∧ (mid < s.2.1 ∨ last < s.2.2))
    (fun s => (mid + 1 - s.2.1 + (last + 1 - s.2.2)).toNat) ?_ (by omega) ⟨h, hempty⟩
  rintro ⟨temp, begin1, begin2⟩ ⟨h, hempty⟩
  have hb1 := h.front
  have hb2 := h.back
  dsimp only at hempty hb1 hb2 ⊢
  split
  · rename_i hleft
    rcases hempty with hnone | hnone
    · have hle : begin2 ≤ last := by omega
      rw [takeRest, if_neg (by dsimp only; omega), bind_done]
      dsimp only
      rw [takeRest, if_pos (show begin2 ≤ last from hle)]
      dsimp only
      rw [readCell_eq (by omega) (by omega), bind_done, h.putTemp (.inr hle)]
      refine .inl ⟨_, rfl, ⟨h.takeBack hback hle fun p hp hple => by omega, .inl hnone⟩, by dsimp only; omega⟩
    · have hle : begin1 ≤ mid := by omega
      rw [takeRest, if_pos (show begin1 ≤ mid from hle)]
      dsimp only
      rw [readCell_eq (by omega) (by omega), bind_done, h.putTemp (.inl hle)]
      change (∃ t, Outcome.map _ (takeRest size a (last - first + 1) last (temp ++ [a begin1], begin2)) = _ ∧ _) ∨ _
      rw [takeRest, if_neg (show ¬begin2 ≤ last by omega)]
      refine .inl ⟨_, rfl, ⟨h.takeFront hfront hle fun p hp hple => by omega, .inr hnone⟩, by dsimp only; omega⟩
  · rename_i hend
    have hb1' : begin1 = mid + 1 := by omega
    have hb2' : begin2 = last + 1 := by omega
    subst hb1' hb2'
    exact .inr ⟨_, rfl, h⟩

/-- What `temp` holds, in the cells from `first` on. -/
theorem contents_of_copied (hlength : (temp.length : Int) = last + 1 - first)
    (hcopied : ∀ k : Nat, k < temp.length → temp[k]? = some (b (first + k))) : contents b (Finset.Ico first (last + 1)) = (temp : Multiset α) := by
  have htemp : temp = (List.range temp.length).map fun k : Nat => b (first + (k : Int)) := by
    refine List.ext_getElem? fun k => ?_
    rcases Nat.lt_or_ge k temp.length with hlt | hge
    · rw [hcopied k hlt, List.getElem?_map, List.getElem?_range hlt]
      rfl
    · rw [List.getElem?_eq_none hge, List.getElem?_eq_none (by rw [List.length_map, List.length_range]; exact hge)]
  have hinj : Function.Injective fun k : Nat => first + (k : Int) := fun k l heq => by
    dsimp only at heq
    omega
  have hcells : Finset.Ico first (last + 1) = (Finset.range temp.length).map ⟨fun k : Nat => first + (k : Int), hinj⟩ := by
    ext p
    rw [Finset.mem_Ico, Finset.mem_map]
    constructor
    · intro hp
      refine ⟨(p - first).toNat, Finset.mem_range.2 (by omega), ?_⟩
      show first + ((p - first).toNat : Int) = p
      omega
    · rintro ⟨k, hk, rfl⟩
      have hk' := Finset.mem_range.1 hk
      show first ≤ first + (k : Int) ∧ first + (k : Int) < last + 1
      omega
  rw [contents, hcells, Finset.map_val, Multiset.map_map]
  conv_rhs => rw [htemp]
  rfl

/-- The last loop of `merge` copies `temp` to the array. -/
theorem copyLoop_spec (hfirst : 0 ≤ first) (hlast : last < size) (hlength : (temp.length : Int) = last - first + 1) :
    ∃ c : Int → α,
      forLoop 0 (last - first + 1) (fun i array => (follow temp[i.toNat]?).bind fun x => writeCell size array (first + i) x) a = done c ∧
      (∀ k : Nat, k < temp.length → temp[k]? = some (c (first + k))) ∧ ∀ p, p < first ∨ last < p → c p = a p := by
  have hloop : ∃ c : Int → α,
      forLoop 0 (last - first + 1) (fun i array => (follow temp[i.toNat]?).bind fun x => writeCell size array (first + i) x) a = done c ∧
      (∀ k : Nat, (k : Int) < last - first + 1 → temp[k]? = some (c (first + k))) ∧ ∀ p, p < first ∨ last < p → c p = a p := by
    refine forLoop_spec
      (I := fun i (c : Int → α) =>
        (∀ k : Nat, (k : Int) < i → temp[k]? = some (c (first + k))) ∧ ∀ p, p < first ∨ last < p → c p = a p)
      (by omega) ?_ ⟨fun k hk => by omega, fun p _ => rfl⟩
    rintro i c hi hilast ⟨hcopied, houtside⟩
    have hlt : i.toNat < temp.length := by omega
    have hread : temp[i.toNat]? = some temp[i.toNat] := List.getElem?_eq_getElem hlt
    rw [hread, follow, bind_done, writeCell_eq (by omega) (by omega)]
    refine ⟨_, rfl, fun k hk => ?_, fun p hp => ?_⟩
    · rcases eq_or_ne (k : Int) i with rfl | hne
      · rw [Function.update_self]
        exact hread
      · rw [Function.update_of_ne (by omega)]
        exact hcopied k (by omega)
    · rw [Function.update_of_ne (by omega)]
      exact houtside p hp
  obtain ⟨c, hc, hcopied, houtside⟩ := hloop
  exact ⟨c, hc, fun k hk => hcopied k (by omega), houtside⟩

/-- Two rows in order become one. -/
theorem merge_spec (hcmp : TotalPreorder cmp) (hfirst : 0 ≤ first) (hmid : first ≤ mid ∧ mid < last) (hlast : last < size)
    (hfront : SortedOn (mode.order cmp) first (mid + 1) a) (hback : SortedOn (mode.order cmp) (mid + 1) (last + 1) a) :
    ∃ b, merge cmp mode size a first mid last = done b ∧ Rearranged (Finset.Ico first (last + 1)) a b ∧
      SortedOn (mode.order cmp) first (last + 1) b := by
  obtain ⟨s, hs, hmerged, hempty⟩ := mergeLoop_spec hcmp mode a hfirst hmid hlast hfront hback
  obtain ⟨temp, htemp, hall⟩ := restLoop_spec hmerged hempty hfirst ⟨hmid.2, hlast⟩ hfront hback
  have hlength := hall.length
  have hitems := hall.items
  have hinOrder := hall.inOrder
  dsimp only at hlength hitems hinOrder
  rw [Finset.Ico_self, Finset.Ico_self] at hitems
  change (temp : Multiset α) + 0 + 0 = _ at hitems
  rw [Multiset.add_zero, Multiset.add_zero] at hitems
  have hcount : (temp.length : Int) = last - first + 1 := by omega
  obtain ⟨c, hc, hcopied, houtside⟩ := copyLoop_spec (a := a) hfirst hlast hcount
  unfold merge
  dsimp only
  rw [hs, bind_done, htemp, bind_done]
  refine ⟨c, hc, ⟨fun p hp => houtside p ?_, ?_⟩, ?_⟩
  · rw [Finset.mem_Ico] at hp
    omega
  · rw [contents_of_copied (by omega) hcopied, hitems]
  · intro p q hp hpq hq
    obtain ⟨k, rfl⟩ : ∃ k : Nat, p = first + k := ⟨(p - first).toNat, by omega⟩
    obtain ⟨l, rfl⟩ : ∃ l : Nat, q = first + l := ⟨(q - first).toNat, by omega⟩
    have hk : k < temp.length := by omega
    have hl : l < temp.length := by omega
    have hck : temp[k] = c (first + k) := Option.some.inj ((List.getElem?_eq_getElem hk).symm.trans (hcopied k hk))
    have hcl : temp[l] = c (first + l) := Option.some.inj ((List.getElem?_eq_getElem hl).symm.trans (hcopied l hl))
    rw [← hck, ← hcl]
    exact List.pairwise_iff_getElem.1 hinOrder k l hk hl (by omega)

theorem sortMerge_spec (hcmp : TotalPreorder cmp) (mode : SortMode) (a : Int → α) (hfirst : 0 ≤ first) (hlast : last < size)
    (hint : size ≤ 2 ^ 30 + 1) (hfuel : (last - first + 1).toNat < fuel) :
    ∃ b, sortMerge cmp mode size fuel a first last = done b ∧ Rearranged (Finset.Ico first (last + 1)) a b ∧
      SortedOn (mode.order cmp) first (last + 1) b := by
  induction fuel generalizing a first last with
  | zero => omega
  | succ fuel ih =>
    rw [sortMerge]
    split
    · exact ⟨a, rfl, Rearranged.refl _ a, sortedOn_of_le (by omega)⟩
    rename_i hlt
    have hsum : addIndex first last = done (first + last) := if_pos (by omega)
    obtain ⟨mid, hmid, hbounds⟩ : ∃ mid, (first + last) / 2 = mid ∧ first ≤ mid ∧ mid < last := ⟨_, rfl, by omega⟩
    rw [hsum, bind_done]
    dsimp only
    rw [hmid]
    obtain ⟨c, hc, hfront, hcsorted⟩ := @ih first mid a hfirst (by omega) (by omega)
    obtain ⟨d, hd, hback, hdsorted⟩ := @ih (mid + 1) last c (by omega) hlast (by omega)
    have hdc : ∀ p, p ≤ mid → d p = c p := fun p hp => hback.outside p fun hmem => by
      have hmem' := Finset.mem_Ico.1 hmem
      omega
    have hkept : SortedOn (mode.order cmp) first (mid + 1) d := hcsorted.congr fun p _ hp => hdc p (by omega)
    obtain ⟨b, hb, hmerge, hsorted⟩ := merge_spec hcmp hfirst hbounds hlast hkept hdsorted
    rw [hc, bind_done, hd, bind_done]
    refine ⟨b, hb, ((hfront.mono ?_).trans (hback.mono ?_)).trans hmerge, hsorted⟩
    · exact Finset.Ico_subset_Ico_right (by omega)
    · exact Finset.Ico_subset_Ico_left (by omega)

/-- A sum of two indices overflows somewhere near the end of a longer array. -/
theorem sortMerge_overflow (hfirst : 0 ≤ first) (hlt : first < last) (hint : 2 ^ 30 < last) (b : Int → α) :
    sortMerge cmp mode size fuel a first last ≠ done b := by
  induction fuel generalizing a b first with
  | zero => exact nofun
  | succ fuel ih =>
    intro hdone
    rw [sortMerge, if_neg (by omega), addIndex] at hdone
    split at hdone
    · rename_i hfits
      rw [bind_done] at hdone
      obtain ⟨c, -, hrest⟩ := bind_eq_done.1 hdone
      obtain ⟨d, hd, -⟩ := bind_eq_done.1 hrest
      exact ih (by omega) (by omega) d hd
    · cases hdone

end CodeFactory.DataStructure
