import CodeFactory.DataStructure.Sort
import Mathlib.Algebra.BigOperators.Group.Finset.Basic
import Mathlib.Algebra.Group.Action.Defs
import Mathlib.Algebra.Order.BigOperators.Group.Finset
import Mathlib.Tactic.Ring

/-!
# Sorting by exchanges

Bubble sort, selection sort and comb sort.
-/

namespace CodeFactory.DataStructure

open Outcome

universe u

variable {α : Type u} {cmp : α → α → Int} {mode : SortMode} {size lo hi i j e : Int} {a b c : Int → α} {x y : α} {flag : Bool}

/-! ## Both ends of an array -/

/-- From the end `e` on, the cells hold what they have to. -/
def Tail (ord : α → α → Int) (size e : Int) (a : Int → α) : Prop :=
  ∀ p q, 0 ≤ p → p < q → e ≤ q → q < size → ord (a p) (a q) ≤ 0

/-- Up to `i`, the cells hold what they have to. -/
def Head (ord : α → α → Int) (size i : Int) (a : Int → α) : Prop :=
  ∀ p q, 0 ≤ p → p < i → p < q → q < size → ord (a p) (a q) ≤ 0

variable {ord : α → α → Int}

/-- The greatest of the cells in front of a tail is added to it. -/
theorem Tail.cons (h : Tail ord size e a) (hre : Rearranged (Finset.Ico 0 e) a b)
    (hmax : ∀ p, 0 ≤ p → p < e - 1 → ord (b p) (b (e - 1)) ≤ 0) : Tail ord size (e - 1) b := by
  intro p q hp hpq hq hqsize
  rcases eq_or_lt_of_le hq with rfl | hlt
  · exact hmax p hp hpq
  have hbq : b q = a q := hre.outside q fun hmem => by
    have hmem' := Finset.mem_Ico.1 hmem
    omega
  rw [hbq]
  rcases lt_or_ge p e with hpe | hpe
  · obtain ⟨k, hk, heq⟩ := hre.exists_mem (Finset.mem_Ico.2 ⟨hp, hpe⟩)
    have hk' := Finset.mem_Ico.1 hk
    rw [heq]
    exact h k q hk'.1 (by omega) (by omega) hqsize
  · have hbp : b p = a p := hre.outside p fun hmem => by
      have hmem' := Finset.mem_Ico.1 hmem
      omega
    rw [hbp]
    exact h p q hp hpq (by omega) hqsize

/-- The first of the cells behind a head is added to it. -/
theorem Head.snoc (h : Head ord size i a) (hi : 0 ≤ i) (hre : Rearranged (Finset.Ico i size) a b)
    (hmin : ∀ q, i < q → q < size → ord (b i) (b q) ≤ 0) : Head ord size (i + 1) b := by
  intro p q hp hpi hpq hqsize
  rcases eq_or_lt_of_le (Int.lt_add_one_iff.1 hpi) with rfl | hlt
  · exact hmin q hpq hqsize
  have hbp : b p = a p := hre.outside p fun hmem => by
    have hmem' := Finset.mem_Ico.1 hmem
    omega
  rw [hbp]
  rcases lt_or_ge q i with hqi | hqi
  · have hbq : b q = a q := hre.outside q fun hmem => by
      have hmem' := Finset.mem_Ico.1 hmem
      omega
    rw [hbq]
    exact h p q hp hlt hpq hqsize
  · obtain ⟨k, hk, heq⟩ := hre.exists_mem (Finset.mem_Ico.2 ⟨hqi, hqsize⟩)
    have hk' := Finset.mem_Ico.1 hk
    rw [heq]
    exact h p k hp hlt (by omega) hk'.2

/-! ## Bubble sort -/

theorem bubbleCell_eq (hi : 0 ≤ i ∧ i < size) (hj : 0 ≤ j ∧ j < size) : bubbleCell cmp mode size i j (a, flag) =
    done (if 0 < mode.order cmp (a i) (a j) then (exchange a i j, true) else (a, flag)) := by
  rw [bubbleCell, readCell_eq hi.1 hi.2, bind_done, readCell_eq hj.1 hj.2, bind_done]
  split
  · rename_i h
    rw [if_pos (follows_iff.1 h), swapCells_eq hi hj]
    rfl
  · rename_i h
    rw [if_neg fun hpos => h (follows_iff.2 hpos)]

/-- What a pass has done up to the cell `i`: it holds the greatest element so far, and without a flag nothing has been exchanged. -/
structure Bubbled (ord : α → α → Int) (e : Int) (a : Int → α) (i : Int) (s : (Int → α) × Bool) : Prop where
  re : Rearranged (Finset.Ico 0 e) a s.1
  max : ∀ p, 0 ≤ p → p < i → ord (s.1 p) (s.1 i) ≤ 0
  still : s.2 = false → s.1 = a ∧ ∀ p, 0 ≤ p → p < i → ord (a p) (a (p + 1)) ≤ 0

/-- A pass brings the greatest element to the end. -/
theorem bubblePass (hcmp : TotalPreorder cmp) (mode : SortMode) (a : Int → α) (hpos : 0 < e) (he : e ≤ size) :
    ∃ s, forLoop 0 (e - 1) (fun i => bubbleCell cmp mode size i (i + 1)) (a, false) = done s ∧
      Bubbled (mode.order cmp) e a (e - 1) s := by
  have hord := totalPreorder_order hcmp mode
  refine forLoop_spec (I := Bubbled (mode.order cmp) e a) (by omega) ?_ ⟨Rearranged.refl _ a, ?_, fun _ => ⟨rfl, ?_⟩⟩
  · rintro i ⟨b, flag⟩ hi hie ⟨hre, hmax, hstill⟩
    refine ⟨_, bubbleCell_eq ⟨hi, by omega⟩ ⟨by omega, by omega⟩, ?_⟩
    dsimp only at hre hmax hstill
    split
    · rename_i hswap
      refine ⟨hre.trans (Rearranged.of_exchange ?_ ?_), ?_, fun hflag => nomatch hflag⟩
      · exact Finset.mem_Ico.2 ⟨hi, by omega⟩
      · exact Finset.mem_Ico.2 ⟨by omega, by omega⟩
      · intro p hp hpi
        dsimp only
        rw [exchange_right]
        rcases eq_or_lt_of_le (Int.lt_add_one_iff.1 hpi) with rfl | hlt
        · rw [exchange_left]
          exact hord.nonpos_iff.2 hswap.le
        · rw [exchange_of_ne (by omega) (by omega)]
          exact hmax p hp hlt
    · rename_i hkeep
      have hnext : mode.order cmp (b i) (b (i + 1)) ≤ 0 := Int.not_lt.1 hkeep
      refine ⟨hre, ?_, ?_⟩
      · intro p hp hpi
        dsimp only
        rcases eq_or_lt_of_le (Int.lt_add_one_iff.1 hpi) with rfl | hlt
        · exact hnext
        · exact hord.trans (hmax p hp hlt) hnext
      · intro hflag
        obtain ⟨rfl, hsorted⟩ := hstill hflag
        refine ⟨rfl, fun p hp hpi => ?_⟩
        rcases eq_or_lt_of_le (Int.lt_add_one_iff.1 hpi) with rfl | hlt
        · exact hnext
        · exact hsorted p hp hlt
  · intro p hp hpi
    dsimp only at *
    omega
  · intro p hp hpi
    omega

theorem sortBubble_spec (hcmp : TotalPreorder cmp) :
    ∃ b, sortBubble cmp mode size a = done b ∧ Rearranged (Finset.Ico 0 size) a b ∧ SortedOn (mode.order cmp) 0 size b := by
  have hord := totalPreorder_order hcmp mode
  refine loop_spec (I := fun s => Rearranged (Finset.Ico 0 size) a s.1 ∧ s.2 ≤ size ∧ Tail (mode.order cmp) size s.2 s.1)
    (fun s => s.2.toNat) ?_ (by dsimp only; omega) ⟨Rearranged.refl _ a, le_refl size, ?_⟩
  · rintro ⟨b, e⟩ ⟨hre, he, htail⟩
    dsimp only at hre he htail ⊢
    rcases lt_or_ge 1 e with hone | hone
    · obtain ⟨⟨c, flag⟩, hpass, hbubbled⟩ := bubblePass hcmp mode b (show 0 < e by omega) he
      have hsub : Finset.Ico 0 e ⊆ Finset.Ico 0 size := Finset.Ico_subset_Ico_right he
      rw [hpass]
      cases flag with
      | true =>
        refine .inl ⟨(c, e - 1), rfl, ⟨hre.trans (hbubbled.re.mono hsub), by omega, ?_⟩, by dsimp only; omega⟩
        exact htail.cons hbubbled.re hbubbled.max
      | false =>
        obtain ⟨rfl, hsorted⟩ := hbubbled.still rfl
        refine .inr ⟨c, rfl, hre, ?_⟩
        have hfront : SortedOn (mode.order cmp) 0 e c := sortedOn_of_adjacent hord fun p hp hpe => hsorted p hp (by omega)
        intro p q hp hpq hq
        rcases lt_or_ge q e with hqe | hqe
        · exact hfront p q hp hpq hqe
        · exact htail p q hp hpq hqe hq
    · rw [forLoop_of_le (by omega)]
      refine .inr ⟨b, rfl, hre, fun p q hp hpq hq => htail p q hp hpq (by omega) hq⟩
  · intro p q hp hpq hq hqsize
    omega

/-! ## Selection sort -/

theorem selectIndex_spec (hcmp : TotalPreorder cmp) (hlo : 0 ≤ lo) (hlt : lo < e) (he : e ≤ size) :
    ∃ t, selectIndex cmp size a lo e = done t ∧ lo ≤ t ∧ t < e ∧ ∀ p, lo ≤ p → p < e → cmp (a p) (a t) ≤ 0 := by
  refine forLoop_spec (I := fun j t => lo ≤ t ∧ t < e ∧ ∀ p, lo ≤ p → p < j → cmp (a p) (a t) ≤ 0) hlt.le ?_
    ⟨le_refl lo, hlt, fun p hp hpj => absurd hpj (Int.not_lt.2 hp)⟩
  rintro j t hj hje ⟨ht, hte, hmax⟩
  rw [readCell_eq (by omega) (by omega), bind_done, readCell_eq (by omega) (by omega)]
  refine ⟨_, rfl, ?_⟩
  dsimp only
  split
  · rename_i hgreater
    refine ⟨hj, hje, fun p hp hpj => ?_⟩
    rcases eq_or_lt_of_le (Int.lt_add_one_iff.1 hpj) with rfl | hlt
    · exact (hcmp.self _).le
    · exact hcmp.trans (hmax p hp hlt) (hcmp.nonpos_iff.2 hgreater.le)
  · rename_i hnot
    refine ⟨ht, hte, fun p hp hpj => ?_⟩
    rcases eq_or_lt_of_le (Int.lt_add_one_iff.1 hpj) with rfl | hlt
    · exact Int.not_lt.1 hnot
    · exact hmax p hp hlt

/-- The greatest element goes to the end of what is left. -/
theorem selectionAscend_spec (hcmp : TotalPreorder cmp) (hsize : 0 ≤ size) :
    ∃ b, sortSelection cmp .ascend size a = done b ∧ Rearranged (Finset.Ico 0 size) a b ∧ SortedOn cmp 0 size b := by
  have hloop : ∃ s, forLoop 0 size (fun _ (s : (Int → α) × Int × Int) =>
      (selectIndex cmp size s.1 s.2.1 s.2.2).bind fun tmpIndex =>
        (swapCells size s.1 tmpIndex (s.2.2 - 1)).map fun array => (array, s.2.1, s.2.2 - 1)) (a, 0, size) = done s ∧
      Rearranged (Finset.Ico 0 size) a s.1 ∧ s.2.1 = 0 ∧ s.2.2 = size - size ∧ Tail cmp size (size - size) s.1 := by
    refine forLoop_spec
      (I := fun i (s : (Int → α) × Int × Int) =>
        Rearranged (Finset.Ico 0 size) a s.1 ∧ s.2.1 = 0 ∧ s.2.2 = size - i ∧ Tail cmp size (size - i) s.1)
      hsize ?_ ⟨Rearranged.refl _ a, rfl, (Int.sub_zero size).symm, fun p q hp hpq hq hqsize => by omega⟩
    rintro i ⟨b, beginIndex, endIndex⟩ hi hisize ⟨hre, hbegin, hend, htail⟩
    dsimp only at hre hbegin hend htail ⊢
    subst hbegin hend
    obtain ⟨t, ht, hlo, hlt, hmax⟩ := selectIndex_spec (a := b) hcmp (le_refl 0) (show 0 < size - i by omega) (show size - i ≤ size by omega)
    rw [ht, bind_done, swapCells_eq ⟨hlo, by omega⟩ ⟨by omega, by omega⟩]
    have hmove : Rearranged (Finset.Ico 0 (size - i)) b (exchange b t (size - i - 1)) :=
      Rearranged.of_exchange (Finset.mem_Ico.2 ⟨hlo, hlt⟩) (Finset.mem_Ico.2 ⟨by omega, by omega⟩)
    refine ⟨_, rfl, hre.trans (hmove.mono (Finset.Ico_subset_Ico_right (by omega))), rfl, by dsimp only; omega, ?_⟩
    rw [← Int.sub_sub]
    refine htail.cons hmove fun p hp hpe => ?_
    dsimp only
    rw [exchange_right]
    obtain ⟨k, hk, heq⟩ := hmove.exists_mem (Finset.mem_Ico.2 ⟨hp, by omega⟩)
    have hk' := Finset.mem_Ico.1 hk
    rw [heq]
    exact hmax k hk'.1 hk'.2
  obtain ⟨s, hs, hre, -, -, htail⟩ := hloop
  refine ⟨s.1, ?_, hre, fun p q hp hpq hq => htail p q hp hpq (by omega) hq⟩
  rw [sortSelection]
  exact map_eq_done.2 ⟨s, hs, rfl⟩

/-- The greatest element goes to the front of what is left. -/
theorem selectionDescend_spec (hcmp : TotalPreorder cmp) (hsize : 0 ≤ size) :
    ∃ b, sortSelection cmp .descend size a = done b ∧ Rearranged (Finset.Ico 0 size) a b ∧
      SortedOn (SortMode.descend.order cmp) 0 size b := by
  have hloop : ∃ s, forLoop 0 size (fun _ (s : (Int → α) × Int × Int) =>
      (selectIndex cmp size s.1 s.2.1 s.2.2).bind fun tmpIndex =>
        (swapCells size s.1 tmpIndex s.2.1).map fun array => (array, s.2.1 + 1, s.2.2)) (a, 0, size) = done s ∧
      Rearranged (Finset.Ico 0 size) a s.1 ∧ s.2.1 = size ∧ s.2.2 = size ∧ Head (SortMode.descend.order cmp) size size s.1 := by
    refine forLoop_spec (I := fun i (s : (Int → α) × Int × Int) => Rearranged (Finset.Ico 0 size) a s.1 ∧ s.2.1 = i ∧ s.2.2 = size ∧
      Head (SortMode.descend.order cmp) size i s.1) hsize ?_ ⟨Rearranged.refl _ a, rfl, rfl, fun p q hp hpi hpq hqsize => by omega⟩
    rintro i ⟨b, beginIndex, endIndex⟩ hi hisize ⟨hre, hbegin, hend, hhead⟩
    dsimp only at hre hbegin hend hhead ⊢
    subst hbegin hend
    obtain ⟨t, ht, hlo, hlt, hmax⟩ := selectIndex_spec (a := b) hcmp hi hisize (le_refl _)
    rw [ht, bind_done, swapCells_eq ⟨by omega, hlt⟩ ⟨hi, hisize⟩]
    have hmove : Rearranged (Finset.Ico beginIndex endIndex) b (exchange b t beginIndex) :=
      Rearranged.of_exchange (Finset.mem_Ico.2 ⟨hlo, hlt⟩) (Finset.mem_Ico.2 ⟨le_refl _, hisize⟩)
    refine ⟨_, rfl, hre.trans (hmove.mono (Finset.Ico_subset_Ico_left hi)), rfl, rfl, hhead.snoc hi hmove fun q hq hqsize => ?_⟩
    dsimp only
    rw [exchange_right]
    obtain ⟨k, hk, heq⟩ := hmove.exists_mem (Finset.mem_Ico.2 ⟨hq.le, hqsize⟩)
    have hk' := Finset.mem_Ico.1 hk
    have hgreatest := hmax k hk'.1 hk'.2
    rw [heq, SortMode.order]
    have hback := hcmp.nonpos_iff.1 hgreatest
    omega
  obtain ⟨s, hs, hre, -, -, hhead⟩ := hloop
  refine ⟨s.1, ?_, hre, fun p q hp hpq hq => hhead p q hp (by omega) hpq hq⟩
  rw [sortSelection]
  exact map_eq_done.2 ⟨s, hs, rfl⟩

theorem sortSelection_spec (hcmp : TotalPreorder cmp) (hsize : 0 ≤ size) :
    ∃ b, sortSelection cmp mode size a = done b ∧ Rearranged (Finset.Ico 0 size) a b ∧ SortedOn (mode.order cmp) 0 size b := by
  cases mode with
  | ascend => exact selectionAscend_spec hcmp hsize
  | descend => exact selectionDescend_spec hcmp hsize

/-! ## Comb sort

An exchange of two cells that are in the wrong order brings the greater element further up: a sum that is bounded gets greater. -/

/-- How many cells hold less. -/
def rank (ord : α → α → Int) (cells : Finset Int) (a : Int → α) (x : α) : Nat := (cells.filter fun k => ord (a k) x < 0).card

/-- The ranks of what the cells hold, each as often as its cell is far up. -/
noncomputable def weight (r : α → Nat) (size : Int) (a : Int → α) : Nat := ∑ i ∈ Finset.Ico 0 size, i.toNat * r (a i)

theorem rank_lt (hord : TotalPreorder ord) {cells : Finset Int} (hi : i ∈ cells) (hlt : ord (a i) x < 0) :
    rank ord cells a (a i) < rank ord cells a x := by
  refine Finset.card_lt_card ((Finset.ssubset_iff_of_subset ?_).2 ⟨i, Finset.mem_filter.2 ⟨hi, hlt⟩, ?_⟩)
  · intro k hk
    obtain ⟨hmem, hless⟩ := Finset.mem_filter.1 hk
    exact Finset.mem_filter.2 ⟨hmem, hord.neg_of_neg_of_nonpos hless hlt.le⟩
  · intro hmem
    have hself := (Finset.mem_filter.1 hmem).2
    rw [hord.self] at hself
    exact lt_irrefl 0 hself

theorem weight_le {r : α → Nat} (hr : ∀ x, r x ≤ size.toNat) : weight r size a ≤ size.toNat ^ 3 := by
  have hterm : ∀ i ∈ Finset.Ico 0 size, i.toNat * r (a i) ≤ size.toNat * size.toNat := by
    intro i hi
    have hi' := Finset.mem_Ico.1 hi
    exact Nat.mul_le_mul (by omega) (hr (a i))
  have hsum := Finset.sum_le_card_nsmul _ _ _ hterm
  rw [Int.card_Ico, Int.sub_zero, smul_eq_mul] at hsum
  exact hsum.trans (by rw [pow_succ, pow_two, Nat.mul_assoc])

theorem weight_exchange {r : α → Nat} (hi : 0 ≤ i) (hij : i < j) (hj : j < size) (hr : r (a j) < r (a i)) :
    weight r size a < weight r size (exchange a i j) := by
  have himem : i ∈ Finset.Ico 0 size := Finset.mem_Ico.2 ⟨hi, by omega⟩
  have hjmem : j ∈ (Finset.Ico 0 size).erase i := Finset.mem_erase.2 ⟨by omega, Finset.mem_Ico.2 ⟨by omega, hj⟩⟩
  have hsplit : ∀ b : Int → α, weight r size b =
      i.toNat * r (b i) + (j.toNat * r (b j) + ∑ k ∈ ((Finset.Ico 0 size).erase i).erase j, k.toNat * r (b k)) := by
    intro b
    rw [Finset.add_sum_erase _ (fun k => k.toNat * r (b k)) hjmem, Finset.add_sum_erase _ (fun k => k.toNat * r (b k)) himem, weight]
  have hrest : ∑ k ∈ ((Finset.Ico 0 size).erase i).erase j, k.toNat * r (exchange a i j k) =
      ∑ k ∈ ((Finset.Ico 0 size).erase i).erase j, k.toNat * r (a k) := by
    refine Finset.sum_congr rfl fun k hk => ?_
    obtain ⟨hkj, hk'⟩ := Finset.mem_erase.1 hk
    rw [exchange_of_ne (Finset.mem_erase.1 hk').1 hkj]
  rw [hsplit, hsplit (exchange a i j), hrest, exchange_left, exchange_right, ← Nat.add_assoc, ← Nat.add_assoc]
  refine Nat.add_lt_add_right ?_ _
  obtain ⟨d, hd⟩ : ∃ d, j.toNat = i.toNat + (d + 1) := ⟨j.toNat - i.toNat - 1, by omega⟩
  obtain ⟨n, hn⟩ : ∃ n, r (a i) = r (a j) + (n + 1) := ⟨r (a i) - r (a j) - 1, by omega⟩
  rw [hd, hn]
  have hpos : 0 < (d + 1) * (n + 1) := Nat.mul_pos (Nat.succ_pos d) (Nat.succ_pos n)
  calc i.toNat * (r (a j) + (n + 1)) + (i.toNat + (d + 1)) * r (a j)
      < i.toNat * (r (a j) + (n + 1)) + (i.toNat + (d + 1)) * r (a j) + (d + 1) * (n + 1) := Nat.lt_add_of_pos_right hpos
    _ = i.toNat * r (a j) + (i.toNat + (d + 1)) * (r (a j) + (n + 1)) := by ring

/-- A pass over the elements that are `gap` apart. -/
theorem combPass_spec (hcmp : TotalPreorder cmp) (mode : SortMode) (hint : size ≤ 2 ^ 30 + 1) {gap : Int}
    (hgap : 1 ≤ gap ∧ gap ≤ 11) (hj : 0 ≤ j ∧ j < gap) (hre : Rearranged (Finset.Ico 0 size) a b) :
    ∃ s, combPass cmp mode size gap j b = done s ∧ Rearranged (Finset.Ico 0 size) a s.1 ∧
      (s.2 = true → weight (rank (mode.order cmp) (Finset.Ico 0 size) a) size b <
        weight (rank (mode.order cmp) (Finset.Ico 0 size) a) size s.1) ∧
      (s.2 = false → s.1 = b ∧ (gap = 1 → ∀ p, j ≤ p → p + 1 < size → mode.order cmp (b p) (b (p + 1)) ≤ 0)) := by
  have hord := totalPreorder_order hcmp mode
  generalize hr : rank (mode.order cmp) (Finset.Ico 0 size) a = r
  refine loop_spec (I := fun (s : ((Int → α) × Bool) × Int) => j ≤ s.2 ∧ (s.2 < size ∨ s.2 = j) ∧ Rearranged (Finset.Ico 0 size) a s.1.1 ∧
    (s.1.2 = true → weight r size b < weight r size s.1.1) ∧
    (s.1.2 = false → s.1.1 = b ∧ (gap = 1 → ∀ p, j ≤ p → p < s.2 → mode.order cmp (b p) (b (p + 1)) ≤ 0)))
    (fun s => (size - s.2).toNat) ?_ (by dsimp only; omega) ⟨le_refl j, .inr rfl, hre, fun hflag => (nomatch hflag), fun _ => ⟨rfl, ?_⟩⟩
  · rintro ⟨⟨c, flag⟩, k⟩ ⟨hjk, hk, hre', hmoved, hstill⟩
    dsimp only at hjk hk hre' hmoved hstill ⊢
    have hsum : addIndex k gap = done (k + gap) := if_pos (by omega)
    rw [hsum, bind_done]
    split
    · rename_i hnext
      have hkmem : k ∈ Finset.Ico 0 size := Finset.mem_Ico.2 ⟨by omega, by omega⟩
      have hnextmem : k + gap ∈ Finset.Ico 0 size := Finset.mem_Ico.2 ⟨by omega, hnext⟩
      rw [bubbleCell_eq ⟨by omega, by omega⟩ ⟨by omega, hnext⟩]
      refine .inl ⟨_, rfl, ⟨by dsimp only; omega, .inl hnext, ?_⟩, by dsimp only; omega⟩
      dsimp only
      split
      · rename_i hswap
        refine ⟨hre'.trans (Rearranged.of_exchange hkmem hnextmem), fun _ => ?_, fun hflag => nomatch hflag⟩
        have hless : r (c (k + gap)) < r (c k) := by
          obtain ⟨i, hi, heq⟩ := hre'.exists_mem hnextmem
          rw [heq, ← hr]
          refine rank_lt hord hi ((hord.neg_iff _ _).2 ?_)
          rwa [← heq]
        have hgreater : weight r size c < weight r size (exchange c k (k + gap)) := weight_exchange (by omega) (by omega) hnext hless
        cases flag with
        | true => exact (hmoved rfl).trans hgreater
        | false =>
          obtain ⟨rfl, -⟩ := hstill rfl
          exact hgreater
      · rename_i hkeep
        refine ⟨hre', hmoved, fun hflag => ?_⟩
        obtain ⟨rfl, hsorted⟩ := hstill hflag
        refine ⟨rfl, fun hone p hp hpk => ?_⟩
        subst hone
        rcases eq_or_lt_of_le (Int.lt_add_one_iff.1 hpk) with rfl | hlt
        · exact Int.not_lt.1 hkeep
        · exact hsorted rfl p hp hlt
    · rename_i hend
      refine .inr ⟨_, rfl, hre', hmoved, fun hflag => ?_⟩
      obtain ⟨rfl, hsorted⟩ := hstill hflag
      exact ⟨rfl, fun hone p hp hpsize => hsorted hone p hp (by omega)⟩
  · intro _ p hp hpj
    dsimp only at hpj
    omega

/-- A round with a gap: with the last one, the array is sorted. -/
theorem combGap_spec (hcmp : TotalPreorder cmp) (hint : size ≤ 2 ^ 30 + 1) {gap : Int} (hgap : 1 ≤ gap ∧ gap ≤ 11)
    (hre : Rearranged (Finset.Ico 0 size) a b) :
    ∃ c, combGap cmp mode size b gap = done c ∧ Rearranged (Finset.Ico 0 size) a c ∧ (gap = 1 → SortedOn (mode.order cmp) 0 size c) := by
  have hord := totalPreorder_order hcmp mode
  have hrank : ∀ x, rank (mode.order cmp) (Finset.Ico 0 size) a x ≤ size.toNat := fun x => by
    have hcard := Finset.card_filter_le (Finset.Ico 0 size) fun k => mode.order cmp (a k) x < 0
    rwa [Int.card_Ico, Int.sub_zero] at hcard
  have hloop : ∃ c, combGap cmp mode size b gap = done c ∧ Rearranged (Finset.Ico 0 size) a c ∧
      (gap = 1 → 1 ≤ gap → SortedOn (mode.order cmp) 0 size c) := by
    refine forLoop_spec (I := fun j c => Rearranged (Finset.Ico 0 size) a c ∧ (gap = 1 → 1 ≤ j → SortedOn (mode.order cmp) 0 size c))
      (by omega) ?_ ⟨hre, fun _ hone => absurd hone (by decide)⟩
    rintro j c hj hjgap ⟨hre', -⟩
    refine loop_spec (I := Rearranged (Finset.Ico 0 size) a)
      (fun c => size.toNat ^ 3 - weight (rank (mode.order cmp) (Finset.Ico 0 size) a) size c) ?_ (by omega) hre'
    intro d hround
    obtain ⟨⟨d', flag⟩, hpass, hlast, hmoved, hstill⟩ := combPass_spec hcmp mode hint hgap ⟨hj, hjgap⟩ hround
    rw [hpass]
    cases flag with
    | true =>
      have hgreater := hmoved rfl
      have hbound := weight_le (a := d') hrank
      exact .inl ⟨d', rfl, hlast, Nat.sub_lt_sub_left (hgreater.trans_le hbound) hgreater⟩
    | false =>
      obtain ⟨rfl, hsorted⟩ := hstill rfl
      refine .inr ⟨d', rfl, hlast, fun hone _ => sortedOn_of_adjacent hord fun p hp hpsize => ?_⟩
      exact hsorted hone p (by omega) hpsize
  obtain ⟨c, hc, hre', hsorted⟩ := hloop
  exact ⟨c, hc, hre', fun hone => hsorted hone hgap.1⟩

theorem sortComb_spec (hcmp : TotalPreorder cmp) (hint : size ≤ 2 ^ 30 + 1) :
    ∃ b, sortComb cmp mode size a = done b ∧ Rearranged (Finset.Ico 0 size) a b ∧ SortedOn (mode.order cmp) 0 size b := by
  have hgaps : ∀ gap ∈ combGaps, 1 ≤ gap ∧ gap ≤ 11 := by decide
  exact foldl_gaps (fun gap hgap _ hre => combGap_spec hcmp hint (hgaps gap hgap) hre) rfl (Rearranged.refl _ a)

end CodeFactory.DataStructure
