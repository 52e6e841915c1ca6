import Mathlib.Algebra.Order.Group.Multiset
import Mathlib.Algebra.Order.Sub.Unbundled.Basic
import Mathlib.Data.Finset.Card
import Mathlib.Logic.Equiv.Basic

/-!
# The cells of an array

What an array holds is a function of the index. Exchanges of two cells keep the contents of every set of cells that has both.
-/

namespace CodeFactory

universe u v

variable {ι : Type u} {α : Type v}

/-- What some of the cells hold. -/
def contents (a : ι → α) (s : Finset ι) : Multiset α := s.val.map a

variable {a b : ι → α} {s : Finset ι} {i j k : ι} {x : α}

theorem mem_contents : x ∈ contents a s ↔ ∃ i ∈ s, a i = x := Multiset.mem_map

theorem contents_congr (h : ∀ i ∈ s, a i = b i) : contents a s = contents b s := Multiset.map_congr rfl h

variable [DecidableEq ι]

/-- The cells, after two of them have exchanged what they hold. -/
def exchange (a : ι → α) (i j : ι) : ι → α := fun k => if k = i then a j else if k = j then a i else a k

@[simp] theorem exchange_left : exchange a i j i = a j := if_pos rfl

@[simp] theorem exchange_right : exchange a i j j = a i := by
  unfold exchange
  split
  · rename_i h
    rw [h]
  · exact if_pos rfl

theorem exchange_of_ne (hi : k ≠ i) (hj : k ≠ j) : exchange a i j k = a k := by
  rw [exchange, if_neg hi, if_neg hj]

theorem exchange_eq_comp : exchange a i j = a ∘ Equiv.swap i j := by
  funext k
  rw [Function.comp_apply, Equiv.swap_apply_def, exchange]
  split_ifs <;> rfl

theorem contents_insert (h : i ∉ s) : contents a (insert i s) = a i ::ₘ contents a s := by
  rw [contents, Finset.insert_val_of_notMem h, Multiset.map_cons, contents]

/-- An exchange within a set of cells keeps the contents. -/
theorem contents_exchange (hi : i ∈ s) (hj : j ∈ s) : contents (exchange a i j) s = contents a s := by
  have hmaps : ∀ k ∈ s, Equiv.swap i j k ∈ s := by
    intro k hk
    rw [Equiv.swap_apply_def]
    split_ifs
    · exact hj
    · exact hi
    · exact hk
  have hmap : s.map (Equiv.swap i j).toEmbedding = s := by
    refine Finset.eq_of_subset_of_card_le ?_ (Finset.card_map _).ge
    intro k hk
    obtain ⟨k', hk', rfl⟩ := Finset.mem_map.1 hk
    exact hmaps k' hk'
  calc contents (exchange a i j) s = (s.val.map (Equiv.swap i j)).map a := by rw [Multiset.map_map, exchange_eq_comp, contents]
    _ = (s.map (Equiv.swap i j).toEmbedding).val.map a := rfl
    _ = contents a s := by rw [hmap, contents]

/-! ### Rearrangements -/

/-- What some of the cells hold has changed places, and nothing else has changed. -/
structure Rearranged (s : Finset ι) (a b : ι → α) : Prop where
  outside : ∀ i, i ∉ s → b i = a i
  same : contents b s = contents a s

namespace Rearranged

variable {c : ι → α} {t : Finset ι}

omit [DecidableEq ι] in
theorem refl (s : Finset ι) (a : ι → α) : Rearranged s a a := ⟨fun _ _ => rfl, rfl⟩

omit [DecidableEq ι] in
theorem trans (h : Rearranged s a b) (h' : Rearranged s b c) : Rearranged s a c :=
  ⟨fun i hi => (h'.outside i hi).trans (h.outside i hi), h'.same.trans h.same⟩

omit [DecidableEq ι] in
/-- What a cell holds comes from one of the cells. -/
theorem exists_mem (h : Rearranged s a b) (hi : i ∈ s) : ∃ j ∈ s, b i = a j := by
  have hmem : b i ∈ contents a s := by
    rw [← h.same]
    exact mem_contents.2 ⟨i, hi, rfl⟩
  obtain ⟨j, hj, heq⟩ := mem_contents.1 hmem
  exact ⟨j, hj, heq.symm⟩

theorem of_exchange (hi : i ∈ s) (hj : j ∈ s) : Rearranged s a (exchange a i j) := by
  refine ⟨fun k hk => exchange_of_ne ?_ ?_, contents_exchange hi hj⟩
  · rintro rfl
    exact hk hi
  · rintro rfl
    exact hk hj

/-- More cells can be counted in. -/
theorem mono (h : Rearranged s a b) (hsub : s ⊆ t) : Rearranged t a b := by
  have hsplit : ∀ c : ι → α, contents c t = contents c s + contents c (t \ s) := by
    intro c
    rw [contents, contents, contents, ← Multiset.map_add, Finset.sdiff_val, add_tsub_cancel_of_le (Finset.val_le_iff.2 hsub)]
  refine ⟨fun i hi => h.outside i fun hmem => hi (hsub hmem), ?_⟩
  rw [hsplit, hsplit, h.same]
  congr 1
  exact contents_congr fun i hi => h.outside i (Finset.mem_sdiff.1 hi).2

end Rearranged

end CodeFactory
