import CodeFactory.Conf.Contents

/-!
# The free nodes

The rows and parameters of the contents and the free nodes together make up the pools.
-/

namespace CodeFactory.Conf

open Cache Layout

/-- A list that holds the numbers below `n` without the property, each once, leaves as many with it. -/
theorem countP_add_length {n : Nat} {free : Nat → Bool} {used : List Nat} (hnodup : used.Nodup)
    (hmem : ∀ x, x ∈ used ↔ x < n ∧ free x = false) : (List.range n).countP free + used.length = n := by
  have hperm : used.Perm ((List.range n).filter fun x => !free x) := by
    rw [List.perm_ext_iff_of_nodup hnodup (List.nodup_range.filter _)]
    intro x
    rw [hmem, List.mem_filter, List.mem_range, Bool.not_eq_true']
  have hsplit := List.length_eq_countP_add_countP free (l := List.range n)
  rw [List.length_range] at hsplit
  have hrest : (List.range n).countP (fun x => decide ¬free x = true) = ((List.range n).filter fun x => !free x).length := by
    rw [List.countP_eq_length_filter]
    congr 1
    refine List.filter_congr fun x _ => ?_
    cases free x <;> rfl
  rw [hperm.length_eq, ← hrest]
  exact hsplit.symm

namespace Layout

/-- Every row that is in use. -/
def allRows (L : Layout) : List Nat := (List.range L.apps).flatMap L.rows

/-- Everything that has a list of parameters. -/
def owners (L : Layout) : List ParaOwner := (List.range L.apps).flatMap fun a => .app a :: (L.rows a).map .row

/-- Every parameter that is in use. -/
def allParas (L : Layout) : List Nat := L.owners.flatMap L.paras

theorem mem_owners (L : Layout) (o : ParaOwner) : o ∈ L.owners ↔ (∃ a, o = .app a ∧ a < L.apps) ∨
    ∃ a r, o = .row r ∧ a < L.apps ∧ r ∈ L.rows a := by
  unfold owners
  simp only [List.mem_flatMap, List.mem_range, List.mem_cons, List.mem_map]
  constructor
  · rintro ⟨a, ha, rfl | ⟨r, hr, rfl⟩⟩
    · exact Or.inl ⟨a, rfl, ha⟩
    · exact Or.inr ⟨a, r, rfl, ha, hr⟩
  · rintro (⟨a, rfl, ha⟩ | ⟨a, r, rfl, ha, hr⟩)
    · exact ⟨a, ha, Or.inl rfl⟩
    · exact ⟨a, ha, Or.inr ⟨r, hr, rfl⟩⟩

end Layout

theorem rowsIn_docOn (c : Cache) (L : Layout) : rowsIn (c.docOn L) = L.allRows.length := by
  unfold rowsIn docOn allRows
  rw [List.length_flatMap, List.map_map]
  congr 1
  refine List.map_congr_left fun a _ => ?_
  simp [appDoc]

theorem parasIn_docOn (c : Cache) (L : Layout) : parasIn (c.docOn L) = L.allParas.length := by
  unfold parasIn docOn allParas owners
  rw [List.flatMap_assoc, List.length_flatMap, List.map_map]
  congr 1
  refine List.map_congr_left fun a _ => ?_
  simp only [Function.comp_apply, appDoc, List.length_map, List.flatMap_cons, List.length_append, List.map_map]
  congr 1
  rw [List.flatMap_map, List.length_flatMap]
  congr 1
  refine List.map_congr_left fun r _ => ?_
  simp [rowDoc]

namespace Holds

variable {T : EntityTable} {c : Cache} {L : Layout}

theorem allRows_nodup (h : Holds T c L) : L.allRows.Nodup := by
  unfold allRows
  rw [List.nodup_flatMap]
  refine ⟨fun a _ => h.row_nodup a, ?_⟩
  refine List.nodup_range.imp fun {a b} hab => ?_
  intro r hra hrb
  exact hab (h.row_owner a b r hra hrb)

theorem owners_nodup (h : Holds T c L) : L.owners.Nodup := by
  unfold owners
  rw [List.nodup_flatMap]
  refine ⟨fun a _ => ?_, ?_⟩
  · rw [List.nodup_cons]
    refine ⟨by simp, (h.row_nodup a).map fun r s hrs => ParaOwner.row.inj hrs⟩
  · refine List.nodup_range.imp fun {a b} hab => ?_
    intro o hoa hob
    rcases List.mem_cons.1 hoa with rfl | hoa
    · rcases List.mem_cons.1 hob with hob | hob
      · exact hab (ParaOwner.app.inj hob)
      · simp at hob
    · obtain ⟨r, hr, rfl⟩ := List.mem_map.1 hoa
      rcases List.mem_cons.1 hob with hob | hob
      · cases hob
      · obtain ⟨s, hs, heq⟩ := List.mem_map.1 hob
        obtain rfl := ParaOwner.row.inj heq
        exact hab (h.row_owner a b s hr hs)

theorem allParas_nodup (h : Holds T c L) : L.allParas.Nodup := by
  unfold allParas
  rw [List.nodup_flatMap]
  refine ⟨fun o _ => h.para_nodup o, ?_⟩
  refine h.owners_nodup.imp fun {o o'} hoo => ?_
  intro p hp hp'
  exact hoo (h.para_owner o o' p hp hp')

/-- The rows of the contents and the free rows make up the pool. -/
theorem freeRowNum_add (h : Holds T c L) : c.freeRowNum T + rowsIn (c.docOn L) = T.gMaxTabNum := by
  rw [rowsIn_docOn]
  refine countP_add_length h.allRows_nodup fun r => ?_
  unfold allRows
  rw [List.mem_flatMap, beq_eq_false_iff_ne, h.row_live r]
  constructor
  · rintro ⟨a, -, hr⟩
    exact ⟨(h.row_mem a r hr).2, a, hr⟩
  · rintro ⟨-, a, hr⟩
    exact ⟨a, List.mem_range.2 (h.row_mem a r hr).1, hr⟩

/-- The parameters of the contents and the free parameters make up the pool. -/
theorem freeParaNum_add (h : Holds T c L) : c.freeParaNum T + parasIn (c.docOn L) = T.gMaxParaNum := by
  rw [parasIn_docOn]
  refine countP_add_length h.allParas_nodup fun p => ?_
  unfold allParas
  rw [List.mem_flatMap, beq_eq_false_iff_ne, h.para_live p]
  constructor
  · rintro ⟨o, -, hp⟩
    exact ⟨(h.para_mem o p hp).2, o, hp⟩
  · rintro ⟨-, o, hp⟩
    refine ⟨o, ?_, hp⟩
    have hhas := (h.para_mem o p hp).1
    rw [mem_owners]
    cases o with
    | app a => exact Or.inl ⟨a, rfl, hhas⟩
    | row r =>
      obtain ⟨a, ha⟩ := hhas
      exact Or.inr ⟨a, r, rfl, (h.row_mem a r ha).1, ha⟩

end Holds

end CodeFactory.Conf
