import CodeFactory.Conf.LoadSafety

/-!
# The representation of the cache

What holds of the lists and the pools in every state of a run from a cache that was loaded: the rows ascend, every parameter is
in one list or free, and every row has all the columns of its table. The last is so exactly when every row that is added finds
free parameters for all of its columns, and the names of them.
-/

namespace CodeFactory.Conf

open Cache Layout

/-- The columns of a row of a table: the identifiers and the names. -/
def tableColumns (T : EntityTable) (appId rowId : Int) (rowEnd : Nat) : List (Int × Option (List Char)) :=
  (List.range (rowEnd - 1)).map fun j : Nat => (rowId + ((j : Int) + 1), T.getParaNameById appId ((j : Int) + 1))

/-- The application has a table, and the row has all of its columns and no others. -/
def IsFullRow (T : EntityTable) (appId : Int) (r : RowDoc) : Prop :=
  ∃ e ∈ T.appExistTable appId, (r.paras.map fun q => (q.paraId, some q.paraName)) = tableColumns T appId r.rowId e.2

instance (T : EntityTable) (appId : Int) (r : RowDoc) : Decidable (IsFullRow T appId r) :=
  inferInstanceAs (Decidable (∃ e ∈ T.appExistTable appId, _ = tableColumns T appId r.rowId e.2))

/-- Every row is full. -/
def RowsFull (T : EntityTable) (d : List AppDoc) : Prop := ∀ s ∈ d, ∀ r ∈ s.rows, IsFullRow T s.appId r

instance (T : EntityTable) (d : List AppDoc) : Decidable (RowsFull T d) :=
  inferInstanceAs (Decidable (∀ s ∈ d, ∀ r ∈ s.rows, IsFullRow T s.appId r))

/-- The lists of the cache are as they should be. -/
structure WellShaped (T : EntityTable) (c : Cache) : Prop where
  indexed : RowsIndexed (c.doc T)
  ascending : RowsAscend (c.doc T)
  /-- A parameter that is in use is in one list, of an application or of a row, and there once. -/
  oneList : ∀ p, p < T.gMaxParaNum → (c.para p).paraId ≠ -1 → ∃! o, (c.layout T).Has o ∧ p ∈ c.listedParas T o
  once : ∀ o, (c.listedParas T o).Nodup
  /-- A parameter that is free is in no list, and one in no list is free. -/
  freePara : ∀ p, p < T.gMaxParaNum → ((c.para p).paraId = -1 ↔ ∀ o, (c.layout T).Has o → p ∉ c.listedParas T o)
  freeRow : ∀ r, r < T.gMaxTabNum → ((c.row r).rowId = -1 ↔ ∀ a, r ∉ c.listedRows T a)
  full : RowsFull T (c.doc T)

/-- The columns of a table have names, and the identifiers that the columns of the row get are looked up under these names. -/
def ColumnsNamed (T : EntityTable) (appIndex i : Int) (rowEnd : Nat) : Prop :=
  ∀ j : Nat, j < rowEnd - 1 → ∃ name, T.getParaNameById appIndex (j + 1) = some name ∧
    T.columnName (getParaId appIndex i (j + 1)) = some name

/-- A row that the call adds finds free parameters for all columns, and their names. -/
def CallFits (T : EntityTable) (d : List AppDoc) (call : ConfCall) : Prop :=
  ∀ appIndex rowIndex val s rowMaxnum rowEnd i, call = .addTableRow appIndex rowIndex val →
    AddsRow T d appIndex rowIndex val s rowMaxnum rowEnd i → rowsIn d < T.gMaxTabNum →
      parasIn d + (rowEnd - 1) ≤ T.gMaxParaNum ∧ ColumnsNamed T appIndex i rowEnd

/-- A row that is added finds free parameters for all columns, and their names. -/
def RowFits (T : EntityTable) (c : Cache) (a : ConfAct) : Prop := a.locked = true → CallFits T (c.doc T) a.call

/-- The invariant and full rows are all that the shape is. -/
theorem Sound.wellShaped_iff {T : EntityTable} {c : Cache} (h : Sound T c) : WellShaped T c ↔ RowsFull T (c.doc T) := by
  refine ⟨WellShaped.full, fun hfull => ?_⟩
  obtain ⟨hidx, hasc⟩ := (h.holds.ordered_iff).1 h.ordered
  rw [← h.holds.doc_eq] at hidx hasc
  refine ⟨hidx, hasc, ?_, h.holds.para_nodup, ?_, ?_, hfull⟩
  · intro p _ hp
    obtain ⟨o, ho⟩ := (h.holds.para_live p).1 hp
    exact ⟨o, ⟨(h.holds.para_mem o p ho).1, ho⟩, fun o' ho' => h.holds.para_owner o' o p ho'.2 ho⟩
  · intro p _
    rw [← not_iff_not, ← ne_eq, h.holds.para_live p]
    push Not
    exact exists_congr fun o => ⟨fun ho => ⟨(h.holds.para_mem o p ho).1, ho⟩, fun ho => ho.2⟩
  · intro r _
    rw [← not_iff_not, ← ne_eq, h.holds.row_live r]
    push Not
    exact Iff.rfl

namespace AddsRow

variable {T : EntityTable} {d : List AppDoc} {appIndex rowIndex : Int} {val : Nat → Option (List Char)} {s s' : AppDoc}
  {rowMaxnum rowMaxnum' rowEnd rowEnd' : Nat} {i i' : Int}

/-- The call adds one row. -/
theorem unique (h : AddsRow T d appIndex rowIndex val s rowMaxnum rowEnd i)
    (h' : AddsRow T d appIndex rowIndex val s' rowMaxnum' rowEnd' i') : s = s' ∧ rowMaxnum = rowMaxnum' ∧ rowEnd = rowEnd' ∧ i = i' := by
  obtain rfl := Option.some.inj (h.app.symm.trans h'.app)
  have htable := Option.some.inj (h.table.symm.trans h'.table)
  refine ⟨rfl, congrArg Prod.fst htable, congrArg Prod.snd htable, ?_⟩
  by_cases hpos : 0 < rowIndex
  · rw [h.explicit hpos, h'.explicit hpos]
  · have hzero : rowIndex = 0 := by
      have := h.range.1
      omega
    rcases Int.lt_trichotomy i i' with hlt | heq | hlt
    · obtain ⟨r, hr, hid⟩ := h'.least hzero i h.one_le hlt
      exact absurd hid (h.unused r hr)
    · exact heq
    · obtain ⟨r, hr, hid⟩ := h.least hzero i' h'.one_le hlt
      exact absurd hid (h'.unused r hr)

end AddsRow

namespace AddedAt

variable {T : EntityTable} {d : List AppDoc} {appIndex rowIndex : Int} {val : Nat → Option (List Char)} {a : Nat} {s : AppDoc}
  {rowMaxnum rowEnd : Nat} {xs ys : List RowDoc} {i : Int} {r : RowDoc}

/-- The columns of a row that was added are those of its table when there are as many and the names agree. -/
theorem isFullRow_iff (h : AddedAt T d appIndex rowIndex val a s rowMaxnum rowEnd xs ys i r) :
    IsFullRow T s.appId r ↔ r.paras.length = rowEnd - 1 ∧ ColumnsNamed T appIndex i rowEnd := by
  have hid := h.adds.appId
  subst hid
  unfold IsFullRow tableColumns
  rw [h.adds.table]
  constructor
  · rintro ⟨e, he, hcols⟩
    obtain rfl := Option.some.inj he
    have hlen : r.paras.length = rowEnd - 1 := by simpa using congrArg List.length hcols
    refine ⟨hlen, fun j hj => ?_⟩
    have hjr : j < r.paras.length := by omega
    have hget := congrArg (fun l => l[j]?) hcols
    simp only [List.getElem?_map, List.getElem?_eq_getElem hjr, List.getElem?_range hj, Option.map_some, Option.some.injEq,
      Prod.mk.injEq] at hget
    exact ⟨r.paras[j].paraName, hget.2.symm, h.row.paraName j _ (List.getElem?_eq_getElem hjr)⟩
  · rintro ⟨hlen, hnames⟩
    refine ⟨_, rfl, List.ext_getElem? fun j => ?_⟩
    by_cases hj : j < rowEnd - 1
    · have hjr : j < r.paras.length := by omega
      have hq := List.getElem?_eq_getElem hjr
      obtain ⟨name, hname, hcolumn⟩ := hnames j hj
      obtain rfl := Option.some.inj ((h.row.paraName j _ hq).symm.trans hcolumn)
      rw [List.getElem?_map, List.getElem?_map, hq, List.getElem?_range hj, Option.map_some, Option.map_some, hname,
        h.row.paraId j _ hq, h.row.rowId]
      unfold getParaId getRowId
      rfl
    · rw [List.getElem?_eq_none (by rw [List.length_map]; omega), List.getElem?_eq_none (by simp; omega)]

/-- The row that was added is full exactly when the call that added it is one whose row fits. -/
theorem isFullRow_iff_fits {ret : Int} (h : AddedAt T d appIndex rowIndex val a s rowMaxnum rowEnd xs ys i r)
    (hret : ret = 0 ∧ r.paras.length = rowEnd - 1 ∧ ColumnsAvailable T d appIndex i rowEnd ∨
      ret = -1 ∧ r.paras.length ≠ rowEnd - 1 ∧ ¬ColumnsAvailable T d appIndex i rowEnd) :
    IsFullRow T s.appId r ↔ parasIn d + (rowEnd - 1) ≤ T.gMaxParaNum ∧ ColumnsNamed T appIndex i rowEnd := by
  rw [h.isFullRow_iff]
  refine and_congr_left fun hnames => ?_
  have hall : ∀ j, j < rowEnd - 1 → (T.columnName (getParaId appIndex i ((j : Nat) + 1))).isSome = true := by
    intro j hj
    obtain ⟨name, -, hname⟩ := hnames j hj
    rw [hname]
    rfl
  rcases hret with ⟨-, hlen, hfit⟩ | ⟨-, hlen, hfit⟩
  · exact iff_of_true hlen hfit.1
  · exact iff_of_false hlen fun hle => hfit ⟨hle, hall⟩

end AddedAt

/-- Writing a value leaves every row full. -/
theorem rowsFull_of_written {T : EntityTable} {val : List Char} {d d' : List AppDoc}
    (h : List.Forall₂ (AppDoc.Written val) d d') (hd : RowsFull T d) : RowsFull T d' := by
  intro s' hs' r' hr'
  obtain ⟨s, hs, hw⟩ := exists_of_forall₂ h hs'
  obtain ⟨r, hr, hrw⟩ := exists_of_forall₂ hw.rows hr'
  have hcols : r'.paras.map (fun q => (q.paraId, some q.paraName)) = r.paras.map fun q => (q.paraId, some q.paraName) :=
    map_eq_of_forall₂ hrw.paras fun q q' hq => by rw [hq.paraId, hq.paraName]
  have hfull := hd s hs r hr
  unfold IsFullRow at hfull ⊢
  rw [hcols, hrw.rowId, hw.appId]
  exact hfull

/-- A call keeps every row full when the row that it adds fits. -/
theorem Change.rowsFull {T : EntityTable} {d d' : List AppDoc} {call : ConfCall} {ret : Int} (h : Change T d call ret d')
    (hd : RowsFull T d) (hfits : CallFits T d call) : RowsFull T d' := by
  cases h with
  | nothing => exact hd
  | written hw => exact rowsFull_of_written hw hd
  | tableWritten hw => exact rowsFull_of_written hw hd
  | @added appIndex rowIndex val a s rowMaxnum rowEnd xs ys i r _ h hret =>
    intro t ht q hq
    rcases List.mem_or_eq_of_mem_set ht with ht | rfl
    · exact hd t ht q hq
    · have hold := hd s (List.mem_of_getElem? h.app)
      rw [h.rows] at hold
      rcases List.mem_append.1 hq with hq | hq
      · exact hold q (List.mem_append_left _ hq)
      · rcases List.mem_cons.1 hq with rfl | hq
        · exact (h.isFullRow_iff_fits hret).2 (hfits _ _ _ _ _ _ _ rfl h.adds h.free)
        · exact hold q (List.mem_append_right _ hq)
  | @deleted appIndex rowIndex a s xs ys r happ hid hrows hr =>
    intro t ht q hq
    rcases List.mem_or_eq_of_mem_set ht with ht | rfl
    · exact hd t ht q hq
    · refine hd s (List.mem_of_getElem? happ) q ?_
      have hq : q ∈ xs ++ ys := hq
      rw [hrows]
      simp only [List.mem_append, List.mem_cons] at hq ⊢
      tauto

/-- A call that adds a row that does not fit leaves a row that is not full. -/
theorem Change.callFits {T : EntityTable} {d d' : List AppDoc} {call : ConfCall} {ret : Int}
    (h : Change T d call ret d') (hd' : RowsFull T d') : CallFits T d call := by
  intro appIndex rowIndex val s rowMaxnum rowEnd i hcall hadds hfree
  cases h with
  | nothing hno => exact absurd hfree (hno _ _ _ _ _ _ _ hcall hadds)
  | written => cases hcall
  | tableWritten => cases hcall
  | @added appIndex rowIndex val a s' rowMaxnum' rowEnd' xs ys i' r _ h hret =>
    cases hcall
    obtain ⟨rfl, -, rfl, rfl⟩ := h.adds.unique hadds
    rw [← h.isFullRow_iff_fits hret]
    have hlt : a < d.length := (List.getElem?_eq_some_iff.1 h.app).1
    exact hd' (s'.withRows (xs ++ r :: ys)) (List.mem_set hlt _) r (by simp [AppDoc.withRows])
  | deleted => cases hcall

/-- The file is loaded without leaving the pools, its rows ascend and are full. -/
def WellFormedFile (T : EntityTable) (file : List Char) : Prop :=
  LinesFit T [] (confLines file) ∧ ∃ d ∈ readLines T [] (confLines file), RowsAscend d ∧ RowsFull T d

instance (T : EntityTable) (file : List Char) : Decidable (WellFormedFile T file) :=
  inferInstanceAs (Decidable (_ ∧ ∃ d ∈ readLines T [] (confLines file), RowsAscend d ∧ RowsFull T d))

/-- **The shape of the cache**, in every run from a well-formed file: it is as it should be at the start, and stays so exactly in
the runs in which every row that is added fits. -/
theorem cache_well_shaped_iff {T : EntityTable} {file : List Char} (hfile : WellFormedFile T file) {c₀ c : Cache}
    (hload : buildParaTable T file = .done (some c₀)) {tr : List (Transition Cache ConfAct)}
    (hr : Run (Step.ofOption (confStep T)) c₀ tr c) :
    WellShaped T c₀ ∧ (Always (fun _ _ c' => WellShaped T c') tr ↔ Meets (RowFits T) tr) := by
  obtain ⟨hread, hsound⟩ := loaded hload
  obtain ⟨-, d, hd, hasc, hfull⟩ := hfile
  obtain rfl := Option.some.inj (hread.symm.trans hd)
  have hsound := hsound hasc
  refine ⟨hsound.wellShaped_iff.2 hfull, ?_⟩
  refine Run.all_iff (I := fun c => Sound T c ∧ RowsFull T (c.doc T)) ⟨hsound, hfull⟩ ?_ ?_ hr
  · rintro c a c' ⟨hs, hf⟩ hfits hstep
    obtain ⟨hs', hcase⟩ := hs.step hstep
    have hf' : RowsFull T (c'.doc T) := by
      rcases hcase with ⟨-, rfl⟩ | ⟨hlocked, ret, -, hchange⟩
      · exact hf
      · exact hchange.rowsFull hf (hfits hlocked)
    exact ⟨⟨hs', hf'⟩, hs'.wellShaped_iff.2 hf'⟩
  · rintro c a c' ⟨hs, hf⟩ hnot hstep hshaped
    obtain ⟨hs', hcase⟩ := hs.step hstep
    refine hnot fun hlocked => ?_
    rcases hcase with ⟨hfalse, -⟩ | ⟨-, ret, -, hchange⟩
    · rw [hlocked] at hfalse
      cases hfalse
    · exact hchange.callFits hshaped.full

/-- A table with one row of two columns, and one with one row of one column. -/
def twoTables : EntityTable where
  entities := [⟨1, "firewall".toList, 1, some [(1, "sourceIp".toList), (2, "sourceMask".toList)], 1, 3⟩,
    ⟨2, "route".toList, 1, some [(1, "destinationIp".toList)], 1, 2⟩]
  idEnd := 3
  below := by decide
  one_lt := entityInfoArray.one_lt

/-- The cache that is loaded from a file, if the file is accepted. -/
def cacheOf (T : EntityTable) (file : String) : Cache :=
  match buildParaTable T file.toList with
  | .done (some c) => c
  | _ => initNode T

/-- A row with the smallest free index is added to an application. -/
def addFree (appIndex : Int) : ConfAct := ⟨.addTableRow appIndex 0 fun _ => some "0.0.0.0".toList, true⟩

theorem cache_well_shaped_firewall :
    WellShaped twoTables (cacheOf twoTables "[firewall]\n") ∧
      (Always (fun _ _ c' => WellShaped twoTables c')
          (play (confStep twoTables) (cacheOf twoTables "[firewall]\n") [addFree 1]).1 ↔
        Meets (RowFits twoTables) (play (confStep twoTables) (cacheOf twoTables "[firewall]\n") [addFree 1]).1) :=
  cache_well_shaped_iff (show WellFormedFile twoTables "[firewall]\n".toList by decide) rfl (Run.ofPlay _ _ _)

/-- Two rows with the index zero are added to a table for one row: the second gets one column, then the parameters run out. -/
theorem cache_not_well_shaped :
    WellFormedFile twoTables "[firewall]\n".toList ∧
      buildParaTable twoTables "[firewall]\n".toList = .done (some (cacheOf twoTables "[firewall]\n")) ∧
      ∃ tr c, Run (Step.ofOption (confStep twoTables)) (cacheOf twoTables "[firewall]\n") tr c ∧ ¬WellShaped twoTables c := by
  refine ⟨by decide, rfl, _, _, Run.ofPlay (confStep twoTables) _ [addFree 1, addFree 1], fun h => ?_⟩
  have hnot : ¬RowsFull twoTables
      ((play (confStep twoTables) (cacheOf twoTables "[firewall]\n") [addFree 1, addFree 1]).2.doc twoTables) := by decide
  exact hnot h.full

end CodeFactory.Conf
