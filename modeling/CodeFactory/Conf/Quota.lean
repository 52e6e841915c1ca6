import CodeFactory.Conf.Representation

/-!
# The quota of rows

`config_api_add_table_row` compares an index that it is given with the maximal number of rows, but not the index that it looks
for itself. The rows of every table stay within the quota exactly in the runs in which no row with an index of its own choice
is added to a full table.
-/

namespace CodeFactory.Conf

open Cache Layout

/-- Every table has at most as many rows as it is made for, with indices from one up to that number. -/
def InQuota (T : EntityTable) (d : List AppDoc) : Prop :=
  ∀ s ∈ d, ∀ e ∈ T.appExistTable s.appId, s.rows.length ≤ e.1 ∧
    ∀ r ∈ s.rows, ∃ i : Int, 1 ≤ i ∧ i ≤ e.1 ∧ r.rowId = getRowId s.appId i

/-- A row whose index the call chooses is added to a table that is not full. -/
def RoomLeft (T : EntityTable) (c : Cache) (a : ConfAct) : Prop :=
  a.locked = true → ∀ appIndex val s rowMaxnum rowEnd i, a.call = .addTableRow appIndex 0 val →
    AddsRow T (c.doc T) appIndex 0 val s rowMaxnum rowEnd i → rowsIn (c.doc T) < T.gMaxTabNum → s.rows.length < rowMaxnum

/-- Rows with different indices up to a bound are no more than the bound. -/
theorem length_le_of_indices {appId : Int} {n : Nat} {ids : List Int} (hnodup : ids.Nodup)
    (hidx : ∀ x ∈ ids, ∃ i : Int, 1 ≤ i ∧ i ≤ n ∧ x = getRowId appId i) : ids.length ≤ n := by
  have hmap : (ids.map fun x => ((x - getRowId appId 1) / 256).toNat).Nodup := by
    refine hnodup.map_on fun x hx y hy hxy => ?_
    obtain ⟨i, hi, -, rfl⟩ := hidx x hx
    obtain ⟨j, hj, -, rfl⟩ := hidx y hy
    unfold getRowId at hxy ⊢
    omega
  have hlt : ∀ k ∈ ids.map (fun x => ((x - getRowId appId 1) / 256).toNat), k < n := by
    rw [List.forall_mem_map]
    intro x hx
    obtain ⟨i, hi, hn, rfl⟩ := hidx x hx
    unfold getRowId
    omega
  simpa using length_le_of_lt hmap hlt

theorem nodup_rowIds {rows : List RowDoc} (h : rows.Pairwise fun r r' => r.rowId < r'.rowId) :
    (rows.map RowDoc.rowId).Nodup :=
  List.pairwise_map.2 (h.imp fun hlt => Int.ne_of_lt hlt)

/-- When all indices below one are in use, there are as many rows. -/
theorem le_length_of_indices {appId i : Int} {rows : List RowDoc} (hi : 1 ≤ i)
    (hused : ∀ k, 1 ≤ k → k < i → ∃ r ∈ rows, r.rowId = getRowId appId k) : i ≤ rows.length + 1 := by
  have hnodup : ((List.range (i - 1).toNat).map fun j : Nat => getRowId appId (j + 1)).Nodup := by
    refine List.nodup_range.map fun j k hjk => ?_
    have := getRowId_inj.1 hjk
    omega
  have hsub : ((List.range (i - 1).toNat).map fun j : Nat => getRowId appId (j + 1)) ⊆ rows.map RowDoc.rowId := by
    intro x hx
    obtain ⟨j, hj, rfl⟩ := List.mem_map.1 hx
    have hj := List.mem_range.1 hj
    obtain ⟨r, hr, heq⟩ := hused (j + 1) (by omega) (by omega)
    exact List.mem_map.2 ⟨r, hr, heq⟩
  have hle := (List.subperm_of_subset hnodup hsub).length_le
  rw [List.length_map, List.length_map, List.length_range] at hle
  omega

/-- A write leaves the rows within the quota. -/
theorem inQuota_of_written {T : EntityTable} {val : List Char} {d d' : List AppDoc}
    (h : List.Forall₂ (AppDoc.Written val) d d') (hd : InQuota T d) : InQuota T d' := by
  intro s' hs' e he
  obtain ⟨s, hs, hw⟩ := exists_of_forall₂ h hs'
  rw [hw.appId] at he ⊢
  obtain ⟨hlen, hidx⟩ := hd s hs e he
  refine ⟨by rw [← hw.rows.length_eq]; exact hlen, fun r' hr' => ?_⟩
  obtain ⟨r, hr, hrw⟩ := exists_of_forall₂ hw.rows hr'
  rw [hrw.rowId]
  exact hidx r hr

/-- The index of a row that is added to a table with room is within the quota. -/
theorem AddsRow.le_of_room {T : EntityTable} {d : List AppDoc} {appIndex rowIndex : Int} {val : Nat → Option (List Char)}
    {s : AppDoc} {rowMaxnum rowEnd : Nat} {i : Int} (h : AddsRow T d appIndex rowIndex val s rowMaxnum rowEnd i)
    (hroom : rowIndex = 0 → s.rows.length < rowMaxnum) : i ≤ rowMaxnum := by
  by_cases hzero : rowIndex = 0
  · have hle := le_length_of_indices h.one_le (h.least hzero)
    have := hroom hzero
    omega
  · have hpos : 0 < rowIndex := by
      have := h.range.1
      omega
    rw [h.explicit hpos]
    exact h.range.2

/-- **One call keeps the quota** when it adds no row of its own choice to a full table. -/
theorem Change.inQuota {T : EntityTable} {d d' : List AppDoc} {call : ConfCall} {ret : Int} (h : Change T d call ret d')
    (hd : InQuota T d) (hasc' : RowsAscend d')
    (hroom : ∀ appIndex val s rowMaxnum rowEnd i, call = .addTableRow appIndex 0 val →
      AddsRow T d appIndex 0 val s rowMaxnum rowEnd i → rowsIn d < T.gMaxTabNum → s.rows.length < rowMaxnum) :
    InQuota T d' := by
  cases h with
  | nothing => exact hd
  | written hw => exact inQuota_of_written hw hd
  | tableWritten hw => exact inQuota_of_written hw hd
  | @added appIndex rowIndex val a s rowMaxnum rowEnd xs ys i r _ h _ =>
    intro t ht e he
    rcases List.mem_or_eq_of_mem_set ht with hold | rfl
    · exact hd t hold e he
    · have htable : T.appExistTable s.appId = some (rowMaxnum, rowEnd) := by rw [h.adds.appId, h.adds.table]
      have he : T.appExistTable s.appId = some e := he
      obtain rfl := Option.some.inj (htable.symm.trans he)
      have hle : i ≤ rowMaxnum := by
        refine h.adds.le_of_room fun hzero => ?_
        subst hzero
        exact hroom _ _ _ _ _ _ rfl h.adds h.free
      have hidx : ∀ q ∈ xs ++ r :: ys, ∃ i : Int, 1 ≤ i ∧ i ≤ rowMaxnum ∧ q.rowId = getRowId s.appId i := by
        intro q hq
        have hs := (hd s (List.mem_of_getElem? h.app) _ htable).2
        rw [h.rows] at hs
        rcases List.mem_append.1 hq with hq | hq
        · exact hs q (List.mem_append_left _ hq)
        · rcases List.mem_cons.1 hq with rfl | hq
          · exact ⟨i, h.adds.one_le, hle, by rw [h.row.rowId, h.adds.appId]⟩
          · exact hs q (List.mem_append_right _ hq)
      have hlen := length_le_of_indices (nodup_rowIds (hasc' _ ht)) (List.forall_mem_map.2 hidx)
      rw [List.length_map] at hlen
      exact ⟨hlen, hidx⟩
  | @deleted appIndex rowIndex a s xs ys r happ hid hrows hr =>
    intro t ht e he
    rcases List.mem_or_eq_of_mem_set ht with hold | rfl
    · exact hd t hold e he
    · obtain ⟨hlen, hidx⟩ := hd s (List.mem_of_getElem? happ) e he
      rw [hrows] at hlen hidx
      show (xs ++ ys).length ≤ e.1 ∧ ∀ q ∈ xs ++ ys, _
      refine ⟨by simp at hlen ⊢; omega, fun q hq => hidx q ?_⟩
      simp only [List.mem_append, List.mem_cons] at hq ⊢
      tauto

/-- **The quota**, in every run from a cache that is within it: it is kept exactly in the runs in which a row whose index the call
chooses is only added to a table that is not full. -/
theorem quota_kept_iff {T : EntityTable} {c₀ c : Cache} (h₀ : Sound T c₀) (hquota : InQuota T (c₀.doc T))
    {tr : List (Transition Cache ConfAct)} (hr : Run (Step.ofOption (confStep T)) c₀ tr c) :
    Always (fun _ _ c' => InQuota T (c'.doc T)) tr ↔ Meets (RoomLeft T) tr := by
  refine Run.all_iff (I := fun c => Sound T c ∧ InQuota T (c.doc T)) ⟨h₀, hquota⟩ ?_ ?_ hr
  · rintro c a c' ⟨hs, hq⟩ hroom hstep
    obtain ⟨hs', hcase⟩ := hs.step hstep
    have hq' : InQuota T (c'.doc T) := by
      rcases hcase with ⟨-, rfl⟩ | ⟨hlocked, ret, -, hchange⟩
      · exact hq
      · exact hchange.inQuota hq hs'.rowsAscend (hroom hlocked)
    exact ⟨⟨hs', hq'⟩, hq'⟩
  · rintro c a c' ⟨hs, -⟩ hnot hstep hq'
    obtain ⟨-, hcase⟩ := hs.step hstep
    refine hnot fun hlocked appIndex val s rowMaxnum rowEnd i hcall hadds hfree => ?_
    rcases hcase with ⟨hfalse, -⟩ | ⟨-, ret, -, hchange⟩
    · rw [hlocked] at hfalse
      cases hfalse
    · rw [hcall] at hchange
      generalize hd' : c'.doc T = d' at hchange hq'
      cases hchange with
      | nothing hno => exact absurd hfree (hno _ _ _ _ _ _ _ rfl hadds)
      | @added _ _ _ k t m e xs ys j r _ h _ =>
        obtain ⟨rfl, rfl, rfl, rfl⟩ := h.adds.unique hadds
        have hlt : k < (c.doc T).length := (List.getElem?_eq_some_iff.1 h.app).1
        have htable : T.appExistTable t.appId = some (m, e) := by rw [h.adds.appId, h.adds.table]
        have hlen := (hq' (t.withRows (xs ++ r :: ys)) (List.mem_set hlt _) _ htable).1
        have hlen : (xs ++ r :: ys).length ≤ m := hlen
        rw [h.rows]
        simp only [List.length_append, List.length_cons] at hlen ⊢
        omega

theorem inQuota_firewall : InQuota twoTables ((cacheOf twoTables "[firewall]\n").doc twoTables) := by
  have hdoc : (cacheOf twoTables "[firewall]\n").doc twoTables = [⟨1, "firewall".toList, [], []⟩] := rfl
  rw [hdoc]
  intro s hs e _
  obtain rfl := List.mem_singleton.1 hs
  exact ⟨Nat.zero_le _, by simp⟩

theorem quota_kept_firewall :
    Always (fun _ _ c' => InQuota twoTables (c'.doc twoTables))
        (play (confStep twoTables) (cacheOf twoTables "[firewall]\n") [addFree 1]).1 ↔
      Meets (RoomLeft twoTables) (play (confStep twoTables) (cacheOf twoTables "[firewall]\n") [addFree 1]).1 :=
  quota_kept_iff ((loaded (show buildParaTable twoTables "[firewall]\n".toList = .done (some _) from rfl)).2 (by decide))
    inQuota_firewall (Run.ofPlay _ _ _)

/-- Two rows with the index zero are added to a table for one row. -/
theorem quota_not_kept :
    Sound twoTables (cacheOf twoTables "[firewall]\n") ∧
      InQuota twoTables ((cacheOf twoTables "[firewall]\n").doc twoTables) ∧
      ∃ tr c, Run (Step.ofOption (confStep twoTables)) (cacheOf twoTables "[firewall]\n") tr c ∧
        ¬InQuota twoTables (c.doc twoTables) := by
  refine ⟨(loaded (show buildParaTable twoTables "[firewall]\n".toList = .done (some _) from rfl)).2 (by decide),
    inQuota_firewall, _, _, Run.ofPlay (confStep twoTables) _ [addFree 1, addFree 1], fun h => ?_⟩
  generalize hd : (play (confStep twoTables) (cacheOf twoTables "[firewall]\n") [addFree 1, addFree 1]).2.doc twoTables = d at h
  have hrows : d.map (fun s => (s.appId, s.rows.length)) = [(1, 2)] := by
    rw [← hd]
    decide
  obtain ⟨s, rfl, hs⟩ := List.map_eq_singleton_iff.1 hrows
  obtain ⟨hid, hlen⟩ := Prod.mk.inj hs
  have hle := (h s (by simp) (1, 3) (by rw [hid]; rfl)).1
  omega

end CodeFactory.Conf
