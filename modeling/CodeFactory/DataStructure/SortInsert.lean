import CodeFactory.DataStructure.Sort

/-!
# Sorting by insertion

Insertion sort and Shell's sort. While elements move on, the one that is to be inserted is thought of as standing in the cell that has
become free.
-/

namespace CodeFactory.DataStructure

open Outcome

universe u

variable {α : Type u} {cmp : α → α → Int} {mode : SortMode} {size gap i k : Int} {a b : Int → α} {tmp : α}

/-- What the loop has done when it is at `k`: the elements are those of the start, with the one to insert in the free cell, and for
neighbours all that is not yet known to be in order is the free cell and what is in front of it. -/
structure Shifted (ord : α → α → Int) (size gap : Int) (b : Int → α) (i : Int) (tmp : α) (s : (Int → α) × Int × Bool) : Prop where
  free : 0 ≤ s.2.1 + gap ∧ s.2.1 + gap ≤ i
  re : Rearranged (Finset.Ico 0 size) b (Function.update s.1 (s.2.1 + gap) tmp)
  still : s.2.2 = false → s.1 = b ∧ s.2.1 + gap = i
  inOrder : gap = 1 → SortedOn ord 0 i b → ∀ p q, 0 ≤ p → p < q → q ≤ i → q ≠ s.2.1 + gap →
    ord (Function.update s.1 (s.2.1 + gap) tmp p) (Function.update s.1 (s.2.1 + gap) tmp q) ≤ 0

/-- An element that comes behind the one to insert moves on. -/
theorem Shifted.move {ord : α → α → Int} {moved : Bool} (h : Shifted ord size gap b i tmp (a, k, moved)) (hgap : 1 ≤ gap) (hi : i < size)
    (hk : 0 ≤ k) (hlt : ord tmp (a k) < 0) : Shifted ord size gap b i tmp (Function.update a (k + gap) (a k), k - gap, true) := by
  obtain ⟨hfree, hre, -, hinOrder⟩ := h
  dsimp only at hfree hre hinOrder
  have hback : k - gap + gap = k := Int.sub_add_cancel k gap
  have hexchange : Function.update (Function.update a (k + gap) (a k)) k tmp = exchange (Function.update a (k + gap) tmp) k (k + gap) := by
    funext p
    rcases eq_or_ne p k with rfl | hpk
    · rw [Function.update_self, exchange_left, Function.update_self]
    rcases eq_or_ne p (k + gap) with rfl | hpg
    · rw [Function.update_of_ne hpk, Function.update_self, exchange_right, Function.update_of_ne (by omega)]
    · rw [Function.update_of_ne hpk, Function.update_of_ne hpg, exchange_of_ne hpk hpg, Function.update_of_ne hpg]
  refine ⟨?_, ?_, (fun hmoved => nomatch hmoved), ?_⟩
  · dsimp only
    omega
  · dsimp only
    rw [hback, hexchange]
    exact hre.trans (Rearranged.of_exchange (Finset.mem_Ico.2 ⟨hk, by omega⟩) (Finset.mem_Ico.2 ⟨hfree.1, by omega⟩))
  · intro hone hsorted p q hp hpq hqi hq
    dsimp only at hq ⊢
    rw [hback] at hq ⊢
    rw [hexchange]
    have hknown := hinOrder hone hsorted
    subst hone
    rcases eq_or_ne q (k + 1) with rfl | hqk
    · rw [exchange_right, Function.update_of_ne (by omega)]
      rcases eq_or_ne p k with rfl | hpk
      · rw [exchange_left, Function.update_self]
        exact hlt.le
      · have hless := hknown p k hp (by omega) (by omega) (by omega)
        rw [exchange_of_ne hpk (by omega)]
        rwa [Function.update_of_ne (show k ≠ k + 1 by omega)] at hless
    · rw [exchange_of_ne hq hqk]
      rcases eq_or_ne p k with rfl | hpk
      · rw [exchange_left]
        exact hknown (p + 1) q (by omega) (by omega) hqi hqk
      rcases eq_or_ne p (k + 1) with rfl | hpk'
      · rw [exchange_right]
        exact hknown k q hk (by omega) hqi hqk
      · rw [exchange_of_ne hpk hpk']
        exact hknown p q hp hpq hqi hqk

/-- At the front, or behind an element that does not come behind the one to insert, there is its place. -/
theorem Shifted.sorted {ord : α → α → Int} (hord : TotalPreorder ord) {moved : Bool} (h : Shifted ord size 1 b i tmp (a, k, moved))
    (hsorted : SortedOn ord 0 i b) (hstop : 0 ≤ k → 0 ≤ ord tmp (a k)) : SortedOn ord 0 (i + 1) (Function.update a (k + 1) tmp) := by
  obtain ⟨hfree, -, -, hinOrder⟩ := h
  dsimp only at hfree hinOrder
  intro p q hp hpq hq
  rcases eq_or_ne q (k + 1) with rfl | hqk
  · have hend := hord.nonpos_iff.2 (hstop (by omega))
    rw [Function.update_self]
    rcases eq_or_lt_of_le (Int.lt_add_one_iff.1 hpq) with rfl | hlt
    · rwa [Function.update_of_ne (by omega)]
    · have hless := hinOrder rfl hsorted p k hp hlt (by omega) (by omega)
      rw [Function.update_of_ne (show k ≠ k + 1 by omega)] at hless
      exact hord.trans hless hend
  · exact hinOrder rfl hsorted p q hp hpq (by omega) hqk

/-- Elements move on until the one to insert has its place. -/
theorem shiftCells_spec (hcmp : TotalPreorder cmp) (mode : SortMode) (b : Int → α) (hgap : 1 ≤ gap)
    (hi : 0 ≤ i ∧ i < size) (fuel : Nat) (hfuel : i < fuel) :
    ∃ s, shiftCells cmp mode size gap (b i) fuel b (i - gap) = done s ∧ Shifted (mode.order cmp) size gap b i (b i) s ∧
      (gap = 1 → SortedOn (mode.order cmp) 0 i b → SortedOn (mode.order cmp) 0 (i + 1) (Function.update s.1 (s.2.1 + gap) (b i))) := by
  have hord := totalPreorder_order hcmp mode
  refine loop_spec (I := Shifted (mode.order cmp) size gap b i (b i)) (fun s => (s.2.1 + 1).toNat) ?_ (by dsimp only; omega) ?_
  · rintro ⟨a, k, moved⟩ h
    have hfree := h.free
    dsimp only at hfree ⊢
    split
    · rename_i hk
      rw [readCell_eq hk (by omega), bind_done]
      split
      · rename_i hbefore
        rw [writeCell_eq hfree.1 (by omega)]
        exact .inl ⟨_, rfl, h.move hgap hi.2 hk (precedes_iff.1 hbefore), by dsimp only; omega⟩
      · rename_i hnot
        refine .inr ⟨_, rfl, h, fun hone hsorted => ?_⟩
        subst hone
        exact h.sorted hord hsorted fun _ => Int.not_lt.1 fun hlt => hnot (precedes_iff.2 hlt)
    · rename_i hk
      refine .inr ⟨_, rfl, h, fun hone hsorted => ?_⟩
      subst hone
      exact h.sorted hord hsorted fun hpos => absurd hpos hk
  · have hback : i - gap + gap = i := Int.sub_add_cancel i gap
    have hself : Function.update b (i - gap + gap) (b i) = b := by rw [hback, Function.update_eq_self]
    refine ⟨by dsimp only; omega, ?_, fun _ => ⟨rfl, hback⟩, fun _ hsorted p q hp hpq hqi hq => ?_⟩
    · dsimp only
      rw [hself]
      exact Rearranged.refl _ b
    · dsimp only at hq ⊢
      rw [hself]
      exact hsorted p q hp hpq (by omega)

theorem sortInsertion_spec (hcmp : TotalPreorder cmp) :
    ∃ b, sortInsertion cmp mode size a = done b ∧ Rearranged (Finset.Ico 0 size) a b ∧ SortedOn (mode.order cmp) 0 size b := by
  rcases lt_or_ge size 1 with hempty | hsize
  · exact ⟨a, forLoop_of_le (by omega), Rearranged.refl _ a, sortedOn_of_le (by omega)⟩
  refine forLoop_spec (I := fun i b => Rearranged (Finset.Ico 0 size) a b ∧ SortedOn (mode.order cmp) 0 i b) hsize ?_
    ⟨Rearranged.refl _ a, sortedOn_of_le (by omega)⟩
  rintro i b hi hisize ⟨hre, hsorted⟩
  obtain ⟨⟨c, j, moved⟩, hshift, hshifted, hplace⟩ := shiftCells_spec hcmp mode b (le_refl 1) ⟨by omega, hisize⟩ (size.toNat + 1) (by omega)
  rw [readCell_eq (by omega) hisize, bind_done, hshift, bind_done]
  cases moved with
  | true =>
    dsimp only
    rw [writeCell_eq hshifted.free.1 (lt_of_le_of_lt hshifted.free.2 hisize)]
    exact ⟨_, rfl, hre.trans hshifted.re, hplace rfl hsorted⟩
  | false =>
    -- the element stands where it belongs
    obtain ⟨rfl, hj⟩ := hshifted.still rfl
    have hin := hplace rfl hsorted
    dsimp only at hj hin
    rw [hj, Function.update_eq_self] at hin
    exact ⟨c, rfl, hre, hin⟩

/-- A round with a gap: with the last one, the array is sorted. -/
theorem shellGap_spec (hcmp : TotalPreorder cmp) (hgap : 1 ≤ gap) (hre : Rearranged (Finset.Ico 0 size) a b) :
    ∃ c, shellGap cmp mode size b gap = done c ∧ Rearranged (Finset.Ico 0 size) a c ∧ (gap = 1 → SortedOn (mode.order cmp) 0 size c) := by
  rcases lt_or_ge size gap with hshort | hsize
  · exact ⟨b, forLoop_of_le hshort.le, hre, fun hone => sortedOn_of_le (by omega)⟩
  refine forLoop_spec (I := fun i c => Rearranged (Finset.Ico 0 size) a c ∧ (gap = 1 → SortedOn (mode.order cmp) 0 i c)) hsize ?_
    ⟨hre, fun hone => sortedOn_of_le (by omega)⟩
  rintro i c hi hisize ⟨hre', hsorted⟩
  obtain ⟨s, hshift, hshifted, hplace⟩ := shiftCells_spec hcmp mode c hgap ⟨by omega, hisize⟩ (size.toNat + 1) (by omega)
  rw [readCell_eq (by omega) hisize, bind_done, hshift, bind_done, writeCell_eq hshifted.free.1 (lt_of_le_of_lt hshifted.free.2 hisize)]
  exact ⟨_, rfl, hre'.trans hshifted.re, fun hone => hplace hone (hsorted hone)⟩

theorem sortShell_spec (hcmp : TotalPreorder cmp) :
    ∃ b, sortShell cmp mode size a = done b ∧ Rearranged (Finset.Ico 0 size) a b ∧ SortedOn (mode.order cmp) 0 size b := by
  have hgaps : ∀ gap ∈ shellGaps, 1 ≤ gap := by decide
  exact foldl_gaps (fun gap hgap _ hre => shellGap_spec hcmp (hgaps gap hgap) hre) rfl (Rearranged.refl _ a)

end CodeFactory.DataStructure
