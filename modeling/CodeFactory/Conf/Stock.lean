import CodeFactory.Conf.Quota
import Mathlib.Algebra.Order.BigOperators.Group.List
import Mathlib.Algebra.Order.Ring.Nat

/-!
# No node is lost

The pools are made for as many rows and parameters as the table of the applications allows. In a run from a cache within these
sizes, in which every table keeps to its quota, a free row and free parameters are there for every row that a table has room for:
what is deleted comes back.
-/

namespace CodeFactory.Conf

open Cache Layout EntityTable

theorem sum_le_of_subset {α : Type} (f : α → Nat) {xs ys : List α} (hnodup : xs.Nodup) (hsub : xs ⊆ ys) :
    (xs.map f).sum ≤ (ys.map f).sum := by
  obtain ⟨zs, hperm, hzs⟩ := List.subperm_of_subset hnodup hsub
  rw [← (hperm.map f).sum_eq]
  exact (hzs.map f).sum_le_sum fun _ _ => Nat.zero_le _

theorem sum_add_le {α : Type} {f g : α → Nat} {l : List α} (h : ∀ x ∈ l, g x ≤ f x) {x : α} (hx : x ∈ l) {k : Nat}
    (hk : g x + k ≤ f x) : (l.map g).sum + k ≤ (l.map f).sum := by
  obtain ⟨xs, ys, rfl⟩ := List.append_of_mem hx
  have hxs := List.sum_le_sum fun y hy => h y (List.mem_append_left _ hy)
  have hys := List.sum_le_sum fun y hy => h y (List.mem_append_right _ (List.mem_cons_of_mem _ hy))
  simp only [List.map_append, List.map_cons, List.sum_append, List.sum_cons]
  omega

/-- The contents are within the sizes of the pools: every application is there once and is one of the table, with as many
parameters of its own as it is made for, and its rows are full and within the quota. -/
structure Stocked (T : EntityTable) (d : List AppDoc) : Prop where
  distinct : (d.map AppDoc.appId).Nodup
  known : ∀ s ∈ d, ∃ e ∈ T.findEntity s.appId, s.paras.length ≤ e.appMaxnum - 1
  quota : InQuota T d
  full : RowsFull T d

/-- The rows and the columns of every table fit the eight bits that the identifiers have for each, and every column has a name. -/
def TablesPacked (T : EntityTable) : Prop :=
  ∀ e ∈ T.entities, e.rowParas.isSome = true → e.rowMaxnum ≤ 255 ∧
    ∀ j, j < e.rowEnd - 1 → j + 1 ≤ 255 ∧ (T.getParaNameById e.eid ((j : Int) + 1)).isSome = true

instance (T : EntityTable) : Decidable (TablesPacked T) :=
  inferInstanceAs (Decidable (∀ e ∈ T.entities, _ → _ ∧ ∀ j, j < e.rowEnd - 1 → _))

theorem EntityTable.appExistTable_of_findEntity {T : EntityTable} {appIndex : Int} {e : TcmEntityInfo}
    (h : T.findEntity appIndex = some e) :
    T.appExistTable appIndex = if e.rowParas.isSome then some (e.rowMaxnum, e.rowEnd) else none := by
  unfold appExistTable
  rw [h]

/-- The entry that a table is found by. -/
theorem EntityTable.exists_of_appExistTable {T : EntityTable} {appIndex : Int} {rowMaxnum rowEnd : Nat}
    (h : T.appExistTable appIndex = some (rowMaxnum, rowEnd)) :
    ∃ e ∈ T.entities, (e.eid : Int) = appIndex ∧ e.rowParas.isSome = true ∧ rowMaxnum = e.rowMaxnum ∧ rowEnd = e.rowEnd := by
  cases he : T.findEntity appIndex with
  | none =>
    unfold appExistTable at h
    rw [he] at h
    cases h
  | some e =>
    rw [appExistTable_of_findEntity he] at h
    split at h
    · rename_i hsome
      obtain ⟨rfl, rfl⟩ := Prod.mk.inj (Option.some.inj h)
      exact ⟨e, List.mem_of_find?_eq_some he, by simpa using List.find?_some he, hsome, rfl, rfl⟩
    · cases h

/-- Within the eight bits the columns of a row are looked up under their names. -/
theorem TablesPacked.columnsNamed {T : EntityTable} (h : TablesPacked T) {appIndex i : Int} {rowMaxnum rowEnd : Nat}
    (htable : T.appExistTable appIndex = some (rowMaxnum, rowEnd)) (hi : 1 ≤ i) (hmax : i ≤ rowMaxnum) :
    ColumnsNamed T appIndex i rowEnd := by
  intro j hj
  obtain ⟨e, he, hid, hsome, rfl, rfl⟩ := exists_of_appExistTable htable
  subst hid
  obtain ⟨hrows, hcols⟩ := h e he hsome
  obtain ⟨hj255, hname⟩ := hcols j hj
  obtain ⟨name, hname⟩ := Option.isSome_iff_exists.1 hname
  have happ : getParaId e.eid i (j + 1) / 65536 = e.eid := by
    unfold getParaId
    omega
  have hcol : getParaId e.eid i (j + 1) % 256 = j + 1 := by
    unfold getParaId
    omega
  refine ⟨name, hname, ?_⟩
  unfold columnName
  rw [happ, hcol, hname]

namespace Stocked

variable {T : EntityTable} {d : List AppDoc}

/-- What all applications are made for is what the table allows. -/
theorem sum_le (h : Stocked T d) (f : TcmEntityInfo → Nat) :
    (d.map fun s => (T.findEntity s.appId).elim 0 f).sum ≤ (T.entities.map f).sum := by
  have hnodup : (d.map fun s => T.findEntity s.appId).Nodup := by
    rw [show (d.map fun s => T.findEntity s.appId) = (d.map AppDoc.appId).map T.findEntity by rw [List.map_map]; rfl]
    refine h.distinct.map_on fun x hx y _ hxy => ?_
    obtain ⟨s, hs, rfl⟩ := List.mem_map.1 hx
    obtain ⟨e, he, -⟩ := h.known s hs
    have hxe : (e.eid : Int) = s.appId := by simpa using List.find?_some he
    have hye : (e.eid : Int) = y := by simpa using List.find?_some (hxy.symm.trans he)
    omega
  have hsub : (d.map fun s => T.findEntity s.appId) ⊆ T.entities.map some := by
    intro o ho
    obtain ⟨s, hs, rfl⟩ := List.mem_map.1 ho
    obtain ⟨e, he, -⟩ := h.known s hs
    rw [he]
    exact List.mem_map_of_mem (List.mem_of_find?_eq_some he)
  have hle := sum_le_of_subset (fun o : Option TcmEntityInfo => o.elim 0 f) hnodup hsub
  rw [List.map_map, List.map_map] at hle
  exact hle

/-- The rows of an application are at most those it is made for. -/
theorem rows_le (h : Stocked T d) {s : AppDoc} (hs : s ∈ d) : s.rows.length ≤ (T.findEntity s.appId).elim 0 tabNum := by
  obtain ⟨e, he, -⟩ := h.known s hs
  rw [he]
  show s.rows.length ≤ if e.rowParas.isSome then e.rowMaxnum else 0
  have htable := appExistTable_of_findEntity he
  by_cases hsome : e.rowParas.isSome = true
  · rw [if_pos hsome] at htable ⊢
    exact (h.quota s hs _ htable).1
  · rw [if_neg hsome] at htable ⊢
    cases hrows : s.rows with
    | nil => exact Nat.le_refl _
    | cons r rs =>
      obtain ⟨e', he', -⟩ := h.full s hs r (by rw [hrows]; exact List.mem_cons_self)
      rw [htable] at he'
      cases he'

/-- The parameters of the rows of an application. -/
theorem rowParas_eq (h : Stocked T d) {s : AppDoc} (hs : s ∈ d) {e : TcmEntityInfo} (he : T.findEntity s.appId = some e) :
    (s.rows.map fun r => r.paras.length).sum = s.rows.length * (e.rowEnd - 1) := by
  have hall : ∀ r ∈ s.rows, r.paras.length = e.rowEnd - 1 := by
    intro r hr
    obtain ⟨e', he', hcols⟩ := h.full s hs r hr
    have htable := appExistTable_of_findEntity he
    rw [he'] at htable
    split at htable
    · obtain rfl := Option.some.inj htable
      simpa [tableColumns] using congrArg List.length hcols
    · cases htable
  rw [List.map_congr_left hall, List.map_const', List.sum_replicate_nat]

/-- The parameters of an application and its rows, with room for some more rows, are at most those it is made for. -/
theorem paras_le (h : Stocked T d) {s : AppDoc} (hs : s ∈ d) {e : TcmEntityInfo} (he : T.findEntity s.appId = some e) {k : Nat}
    (hk : s.rows.length + k ≤ tabNum e) :
    s.paras.length + (s.rows.map fun r => r.paras.length).sum + k * (e.rowEnd - 1) ≤ paraNum e := by
  obtain ⟨e', he', hown⟩ := h.known s hs
  obtain rfl := Option.some.inj (he.symm.trans he')
  have hmul := Nat.mul_le_mul_right (e.rowEnd - 1) hk
  rw [Nat.add_mul] at hmul
  rw [h.rowParas_eq hs he]
  unfold paraNum
  rw [Nat.mul_comm (e.rowEnd - 1)]
  omega

/-- **There are free nodes for a row** that a table has room for, and for all of its columns. -/
theorem room (h : Stocked T d) {s : AppDoc} (hs : s ∈ d) {rowMaxnum rowEnd : Nat}
    (htable : T.appExistTable s.appId = some (rowMaxnum, rowEnd)) (hlt : s.rows.length < rowMaxnum) :
    rowsIn d < T.gMaxTabNum ∧ parasIn d + (rowEnd - 1) ≤ T.gMaxParaNum := by
  obtain ⟨e, he, -⟩ := h.known s hs
  have hentry := appExistTable_of_findEntity he
  rw [htable] at hentry
  split at hentry
  · rename_i hsome
    obtain ⟨rfl, rfl⟩ := Prod.mk.inj (Option.some.inj hentry)
    have htab : tabNum e = e.rowMaxnum := if_pos hsome
    constructor
    · refine Nat.lt_of_lt_of_le ?_ (h.sum_le tabNum)
      show rowsIn d + 1 ≤ _
      refine sum_add_le (fun t ht => h.rows_le ht) hs ?_
      rw [he]
      show _ ≤ tabNum e
      omega
    · refine Nat.le_trans ?_ (h.sum_le paraNum)
      refine sum_add_le (fun t ht => ?_) hs ?_
      · obtain ⟨e', he', -⟩ := h.known t ht
        have hrows := h.rows_le ht
        rw [he'] at hrows ⊢
        have hle := h.paras_le ht he' (k := 0) hrows
        rwa [Nat.zero_mul] at hle
      · have hle := h.paras_le hs he (k := 1) (by omega)
        rw [Nat.one_mul] at hle
        rw [he]
        exact hle
  · cases hentry

/-- Within the quota a table has room for a row with an index that is not in use. -/
theorem lt_of_unused (h : Stocked T d) (hasc : RowsAscend d) {appIndex rowIndex : Int} {val : Nat → Option (List Char)} {s : AppDoc}
    {rowMaxnum rowEnd : Nat} {i : Int} (hadds : AddsRow T d appIndex rowIndex val s rowMaxnum rowEnd i) (hi : i ≤ rowMaxnum) :
    s.rows.length < rowMaxnum := by
  have hmem := List.mem_of_find?_eq_some hadds.app
  have htable := hadds.table
  rw [← hadds.appId] at htable
  have hidx := (h.quota s hmem _ htable).2
  have hnodup : (getRowId s.appId i :: s.rows.map RowDoc.rowId).Nodup := by
    rw [List.nodup_cons]
    refine ⟨fun hin => ?_, nodup_rowIds (hasc s hmem)⟩
    obtain ⟨r, hr, heq⟩ := List.mem_map.1 hin
    exact hadds.unused r hr (by rw [heq, hadds.appId])
  have hle := length_le_of_indices hnodup (List.forall_mem_cons.2 ⟨⟨i, hadds.one_le, hi, rfl⟩, List.forall_mem_map.2 hidx⟩)
  rw [List.length_cons, List.length_map] at hle
  exact hle

end Stocked

/-- What an application and the one that replaces it have in common stays as it is. -/
theorem map_set_eq {α β : Type} {f : α → β} {l : List α} {a : Nat} {x y : α} (hx : l[a]? = some x) (hf : f y = f x) :
    (l.set a y).map f = l.map f := by
  rw [List.map_set, hf]
  refine List.ext_getElem? fun b => ?_
  by_cases hb : a = b
  · subst hb
    rw [List.getElem?_set_self' , List.getElem?_map, hx]
    rfl
  · rw [List.getElem?_set_ne hb]

/-- The identifiers of the applications, and the numbers of their own parameters. -/
def ownSizes (d : List AppDoc) : List (Int × Nat) := d.map fun s => (s.appId, s.paras.length)

theorem Change.ownSizes {T : EntityTable} {d d' : List AppDoc} {call : ConfCall} {ret : Int} (h : Change T d call ret d') :
    ownSizes d' = ownSizes d := by
  cases h with
  | nothing => rfl
  | written hw => exact map_eq_of_forall₂ hw fun _ _ hs => by rw [hs.appId, hs.paras.length_eq]
  | tableWritten hw => exact map_eq_of_forall₂ hw fun _ _ hs => by rw [hs.appId, hs.paras.length_eq]
  | added h _ => exact map_set_eq h.app rfl
  | deleted happ _ _ _ => exact map_set_eq happ rfl

namespace Stocked

variable {T : EntityTable} {d d' : List AppDoc} {call : ConfCall} {ret : Int}

/-- The row that a call adds fits, when the table is not full. -/
theorem callFits (hT : TablesPacked T) (h : Stocked T d) (hasc : RowsAscend d)
    (hroom : ∀ appIndex val s rowMaxnum rowEnd i, call = .addTableRow appIndex 0 val →
      AddsRow T d appIndex 0 val s rowMaxnum rowEnd i → rowsIn d < T.gMaxTabNum → s.rows.length < rowMaxnum) :
    CallFits T d call := by
  intro appIndex rowIndex val s rowMaxnum rowEnd i hcall hadds hfree
  have hzero : rowIndex = 0 → s.rows.length < rowMaxnum := by
    intro hzero
    subst hzero
    exact hroom _ _ _ _ _ _ hcall hadds hfree
  have hi := hadds.le_of_room hzero
  have hmem := List.mem_of_find?_eq_some hadds.app
  have htable := hadds.table
  rw [← hadds.appId] at htable
  exact ⟨(h.room hmem htable (h.lt_of_unused hasc hadds hi)).2, hT.columnsNamed hadds.table hadds.one_le hi⟩

/-- **One call** keeps the contents within the sizes, when it adds no row of its own choice to a full table. -/
theorem change (hT : TablesPacked T) (h : Stocked T d) (hasc : RowsAscend d) (hchange : Change T d call ret d')
    (hasc' : RowsAscend d')
    (hroom : ∀ appIndex val s rowMaxnum rowEnd i, call = .addTableRow appIndex 0 val →
      AddsRow T d appIndex 0 val s rowMaxnum rowEnd i → rowsIn d < T.gMaxTabNum → s.rows.length < rowMaxnum) :
    Stocked T d' := by
  have hsizes := hchange.ownSizes
  have hids : d'.map AppDoc.appId = d.map AppDoc.appId := by
    have hfst := congrArg (List.map Prod.fst) hsizes
    unfold Conf.ownSizes at hfst
    rwa [List.map_map, List.map_map] at hfst
  refine ⟨by rw [hids]; exact h.distinct, ?_, hchange.inQuota h.quota hasc' hroom,
    hchange.rowsFull h.full (h.callFits hT hasc hroom)⟩
  intro s' hs'
  have hmem : (s'.appId, s'.paras.length) ∈ Conf.ownSizes d := by
    rw [← hsizes]
    exact List.mem_map.2 ⟨s', hs', rfl⟩
  obtain ⟨s, hs, heq⟩ := List.mem_map.1 hmem
  obtain ⟨hid, hlen⟩ := Prod.mk.inj heq
  have hknown := h.known s hs
  rwa [hid, hlen] at hknown

end Stocked

/-- **No node is lost**: in every run from a cache within the sizes, in which no row of the call's own choice is added to a full
table, a row with an index that is given and not in use can be added in the end. -/
theorem add_row_succeeds {T : EntityTable} (hT : TablesPacked T) {c₀ c : Cache} (h₀ : Sound T c₀)
    (hstocked : Stocked T (c₀.doc T)) {tr : List (Transition Cache ConfAct)} (hr : Run (Step.ofOption (confStep T)) c₀ tr c)
    (hroom : Meets (RoomLeft T) tr) {appIndex rowIndex : Int} {val : Nat → Option (List Char)} {s : AppDoc}
    {rowMaxnum rowEnd : Nat} (hadds : AddsRow T (c.doc T) appIndex rowIndex val s rowMaxnum rowEnd rowIndex) :
    ∃ c', c.configApiAddTableRow T appIndex rowIndex val = .done (0, c') := by
  have hinv : Sound T c ∧ Stocked T (c.doc T) := by
    refine Run.invariant (I := fun c => Sound T c ∧ Stocked T (c.doc T)) ⟨h₀, hstocked⟩ ?_ hr hroom
    rintro c a c' ⟨hs, hst⟩ hroom hstep
    obtain ⟨hs', hcase⟩ := hs.step hstep
    refine ⟨hs', ?_⟩
    rcases hcase with ⟨-, rfl⟩ | ⟨hlocked, ret, -, hchange⟩
    · exact hst
    · exact hst.change hT hs.rowsAscend hchange hs'.rowsAscend (hroom hlocked)
  obtain ⟨hs, hst⟩ := hinv
  obtain ⟨ret, c', heq, -, hchange⟩ := hs.run (.addTableRow appIndex rowIndex val)
  have hmem := List.mem_of_find?_eq_some hadds.app
  have htable := hadds.table
  rw [← hadds.appId] at htable
  obtain ⟨hfree, hparas⟩ := hst.room hmem htable (hst.lt_of_unused hs.rowsAscend hadds hadds.range.2)
  generalize hd' : c'.doc T = d' at hchange
  cases hchange with
  | nothing hno => exact absurd hfree (hno _ _ _ _ _ _ _ rfl hadds)
  | @added _ _ _ _ _ _ _ _ _ _ _ _ h hret =>
    obtain ⟨rfl, rfl, rfl, rfl⟩ := h.adds.unique hadds
    rcases hret with ⟨rfl, -, -⟩ | ⟨-, -, hnot⟩
    · exact ⟨c', heq⟩
    · refine absurd ⟨hparas, fun j hj => ?_⟩ hnot
      obtain ⟨name, -, hname⟩ := hT.columnsNamed hadds.table hadds.one_le hadds.range.2 j hj
      rw [hname]
      rfl

/-- The contents with one application that has neither parameters nor rows are within the sizes. -/
theorem stocked_singleton {T : EntityTable} {id : Int} {name : List Char} (h : (T.findEntity id).isSome = true) :
    Stocked T [⟨id, name, [], []⟩] := by
  obtain ⟨e, he⟩ := Option.isSome_iff_exists.1 h
  refine ⟨by simp, ?_, ?_, ?_⟩
  · intro s hs
    obtain rfl := List.mem_singleton.1 hs
    exact ⟨e, he, Nat.zero_le _⟩
  · intro s hs f _
    obtain rfl := List.mem_singleton.1 hs
    exact ⟨Nat.zero_le _, by simp⟩
  · intro s hs r hr
    obtain rfl := List.mem_singleton.1 hs
    cases hr

/-- A row is added with the index one and deleted again. -/
def addAndDelete : List ConfAct :=
  [⟨.addTableRow 1 1 fun _ => some "0.0.0.0".toList, true⟩, ⟨.deleteTableRow 1 1, true⟩]

theorem add_row_succeeds_firewall :
    ∃ c', (play (confStep twoTables) (cacheOf twoTables "[firewall]\n") addAndDelete).2.configApiAddTableRow twoTables 1 1
      (fun _ => some "0.0.0.0".toList) = .done (0, c') := by
  have hload : buildParaTable twoTables "[firewall]\n".toList = .done (some (cacheOf twoTables "[firewall]\n")) := rfl
  have hdoc : (cacheOf twoTables "[firewall]\n").doc twoTables = [⟨1, "firewall".toList, [], []⟩] := rfl
  have hroom : Meets (RoomLeft twoTables) (play (confStep twoTables) (cacheOf twoTables "[firewall]\n") addAndDelete).1 := by
    intro x hx _ appIndex val s rowMaxnum rowEnd i hcall
    have hact := mem_of_mem_play hx
    rcases List.mem_cons.1 hact with heq | hact
    · rw [heq] at hcall
      cases hcall
    · rw [List.mem_singleton.1 hact] at hcall
      cases hcall
  have hadds : AddsRow twoTables
      ((play (confStep twoTables) (cacheOf twoTables "[firewall]\n") addAndDelete).2.doc twoTables) 1 1
      (fun _ => some "0.0.0.0".toList) ⟨1, "firewall".toList, [], []⟩ 1 3 1 :=
    ⟨by decide, rfl, rfl, by decide, by decide, by decide, fun _ => rfl, fun h => absurd h (by decide), by simp⟩
  exact add_row_succeeds (by decide) ((loaded hload).2 (by decide)) (hdoc ▸ stocked_singleton (by decide)) (Run.ofPlay _ _ _)
    hroom hadds

/-- A table with 256 rows of one column. -/
def bigTable : EntityTable where
  entities := [⟨1, "route".toList, 1, some [(1, "destinationIp".toList)], 256, 2⟩]
  idEnd := 2
  below := by decide
  one_lt := by decide

/-- The row 256 cannot be added to an empty table for 256 rows: its column is looked up under the next application. -/
theorem add_row_fails :
    Sound bigTable (cacheOf bigTable "[route]\n") ∧ Stocked bigTable ((cacheOf bigTable "[route]\n").doc bigTable) ∧
      AddsRow bigTable ((cacheOf bigTable "[route]\n").doc bigTable) 1 256 (fun _ => some "0.0.0.0".toList)
        ⟨1, "route".toList, [], []⟩ 256 2 256 ∧
      ∃ c', (cacheOf bigTable "[route]\n").configApiAddTableRow bigTable 1 256 (fun _ => some "0.0.0.0".toList) =
        .done (-1, c') := by
  have hload : buildParaTable bigTable "[route]\n".toList = .done (some (cacheOf bigTable "[route]\n")) := rfl
  have hdoc : (cacheOf bigTable "[route]\n").doc bigTable = [⟨1, "route".toList, [], []⟩] := rfl
  refine ⟨(loaded hload).2 (by decide), hdoc ▸ stocked_singleton (by decide), ?_, ⟨_, rfl⟩⟩
  exact ⟨by decide, rfl, rfl, by decide, by decide, by decide, fun _ => rfl, fun h => absurd h (by decide), by simp⟩

end CodeFactory.Conf
