import CodeFactory.Conf.Counting

/-!
# A run of the calls

The calls that change a cache as the actions of a run, the invariant that every one of them keeps, and what each does to the
contents: a value is written, a row with its columns is put in its place, or a row is taken out.
-/

namespace CodeFactory.Conf

open Cache Layout

/-- A call that changes the cache. -/
inductive ConfCall where
  | writeParameter (appIndex paraIndex : Int) (val : List Char)
  | writeTableParameter (appIndex rowIndex paraIndex : Int) (val : List Char)
  | addTableRow (appIndex rowIndex : Int) (val : Nat → Option (List Char))
  | deleteTableRow (appIndex rowIndex : Int)

/-- What the call returns, and the cache behind it. -/
def ConfCall.run (T : EntityTable) (c : Cache) : ConfCall → Outcome (Int × Cache)
  | .writeParameter appIndex paraIndex val => c.configApiWriteParameter T appIndex paraIndex val
  | .writeTableParameter appIndex rowIndex paraIndex val => c.configApiWriteTableParameter T appIndex rowIndex paraIndex val
  | .addTableRow appIndex rowIndex val => c.configApiAddTableRow T appIndex rowIndex val
  | .deleteTableRow appIndex rowIndex => c.configApiDeleteTableRow T appIndex rowIndex

/-- A call of a process, and whether the process gets the semaphore. -/
structure ConfAct where
  call : ConfCall
  locked : Bool

/-- One call: without the semaphore it fails and leaves the cache as it is. -/
def confStep (T : EntityTable) (c : Cache) (a : ConfAct) : Option Cache :=
  if a.locked then
    match a.call.run T c with
    | .done (_, c') => some c'
    | _ => none
  else some c

/-- The invariant of the cache: its lists are a layout, and the rows of every application are in order. -/
structure Sound (T : EntityTable) (c : Cache) : Prop where
  holds : Holds T c (c.layout T)
  ordered : Ordered c (c.layout T)

theorem Sound.of_holds {T : EntityTable} {c : Cache} {L : Layout} (h : Holds T c L) (ho : Ordered c L) : Sound T c := by
  obtain rfl := h.layout_eq
  exact ⟨h, ho⟩

theorem Sound.rowsAscend {T : EntityTable} {c : Cache} (h : Sound T c) : RowsAscend (c.doc T) := by
  rw [h.holds.doc_eq]
  exact ((h.holds.ordered_iff).1 h.ordered).2

/-! ## Values that are written -/

/-- The parameter is the same, but for a value that may have been written. -/
structure ParaDoc.Written (val : List Char) (q q' : ParaDoc) : Prop where
  paraId : q'.paraId = q.paraId
  paraName : q'.paraName = q.paraName
  paraVal : q'.paraVal = q.paraVal ∨ q'.paraVal = val.take (maxValueLen - 1)

/-- The row is the same, but for values that may have been written. -/
structure RowDoc.Written (val : List Char) (r r' : RowDoc) : Prop where
  rowId : r'.rowId = r.rowId
  paras : List.Forall₂ (ParaDoc.Written val) r.paras r'.paras

/-- The application is the same, but for values that may have been written. -/
structure AppDoc.Written (val : List Char) (s s' : AppDoc) : Prop where
  appId : s'.appId = s.appId
  appName : s'.appName = s.appName
  paras : List.Forall₂ (ParaDoc.Written val) s.paras s'.paras
  rows : List.Forall₂ (RowDoc.Written val) s.rows s'.rows

theorem forall₂_map {α β : Type} {R : β → β → Prop} {f g : α → β} {l : List α} (h : ∀ x ∈ l, R (f x) (g x)) :
    List.Forall₂ R (l.map f) (l.map g) := by
  rw [List.forall₂_map_left_iff, List.forall₂_map_right_iff, List.forall₂_same]
  exact h

/-- An item of the second list belongs to one of the first. -/
theorem exists_of_forall₂ {α : Type} {R : α → α → Prop} {l l' : List α} (h : List.Forall₂ R l l') {y : α} (hy : y ∈ l') :
    ∃ x ∈ l, R x y := by
  induction h with
  | nil => cases hy
  | @cons x z l l' hxz _ ih =>
    rcases List.mem_cons.1 hy with rfl | hy
    · exact ⟨x, List.mem_cons_self, hxz⟩
    · obtain ⟨w, hw, hwy⟩ := ih hy
      exact ⟨w, List.mem_cons_of_mem _ hw, hwy⟩

theorem map_eq_of_forall₂ {α β : Type} {R : α → α → Prop} {f : α → β} {l l' : List α} (h : List.Forall₂ R l l')
    (hf : ∀ x y, R x y → f y = f x) : l'.map f = l.map f := by
  induction h with
  | nil => rfl
  | cons hxz _ ih => rw [List.map_cons, List.map_cons, hf _ _ hxz, ih]

theorem AppDoc.Written.rowIds {val : List Char} {s s' : AppDoc} (h : AppDoc.Written val s s') :
    s'.rows.map RowDoc.rowId = s.rows.map RowDoc.rowId :=
  map_eq_of_forall₂ h.rows fun _ _ hr => hr.rowId

namespace Cache

variable (c : Cache) (p : Nat) (val : List Char)

theorem paraDoc_writeVal (q : Nat) : ParaDoc.Written val (c.paraDoc q) ((c.writeVal p val).paraDoc q) := by
  unfold paraDoc writeVal
  by_cases hq : q = p
  · subst hq
    simp only [setPara, Function.update_self]
    exact ⟨rfl, rfl, Or.inr rfl⟩
  · simp only [setPara, Function.update_of_ne hq]
    exact ⟨rfl, rfl, Or.inl rfl⟩

theorem docOn_writeVal (L : Layout) : List.Forall₂ (AppDoc.Written val) (c.docOn L) ((c.writeVal p val).docOn L) := by
  refine forall₂_map fun a _ => ⟨rfl, rfl, forall₂_map fun q _ => c.paraDoc_writeVal p val q, ?_⟩
  exact forall₂_map fun r _ => ⟨rfl, forall₂_map fun q _ => c.paraDoc_writeVal p val q⟩

end Cache

/-! ## Rows that are added and deleted -/

theorem map_range_eq_set {α : Type} {f g : Nat → α} {n a : Nat} (h : ∀ b, b < n → b ≠ a → g b = f b) :
    (List.range n).map g = ((List.range n).map f).set a (g a) := by
  refine List.ext_getElem? fun b => ?_
  rw [List.getElem?_set, List.getElem?_map, List.getElem?_map, List.length_map, List.length_range]
  by_cases hb : b < n
  · rw [List.getElem?_range hb]
    by_cases hba : a = b
    · subst hba
      simp [hb]
    · simp [hba, h b hb (Ne.symm hba)]
  · rw [List.getElem?_eq_none (by rw [List.length_range]; omega)]
    by_cases hba : a = b
    · subst hba
      simp [hb]
    · simp [hba]

/-- The application with other rows. -/
def AppDoc.withRows (s : AppDoc) (rows : List RowDoc) : AppDoc := { s with rows := rows }

/-- The contents of a row that was added, with the columns that were added. -/
structure IsNewRow (T : EntityTable) (appIndex i : Int) (val : Nat → Option (List Char)) (r : RowDoc) : Prop where
  rowId : r.rowId = getRowId appIndex i
  paraId : ∀ (j : Nat) q, r.paras[j]? = some q → q.paraId = getParaId appIndex i (j + 1)
  paraName : ∀ (j : Nat) q, r.paras[j]? = some q → T.columnName (getParaId appIndex i (j + 1)) = some q.paraName
  paraVal : ∀ (j : Nat) q, r.paras[j]? = some q → q.paraVal = ((val j).getD []).take (maxValueLen - 1)

namespace Holds

variable {T : EntityTable} {c c' : Cache} {L : Layout}

/-- The contents behind the adding of a row. -/
theorem docOn_rowAdded (h : Holds T c L) {a n : Nat} {i : Int} {xs ys ps : List Nat} {val : Nat → Option (List Char)}
    (hrows : L.rows a = xs ++ ys) (hadd : RowAdded T c L a i xs ys val n ps c') :
    ∃ r, c'.docOn ((L.setRows a (xs ++ n :: ys)).setParas (.row n) ps) =
        (c.docOn L).set a ((c.appDoc L a).withRows (xs.map (c.rowDoc L) ++ r :: ys.map (c.rowDoc L))) ∧
      IsNewRow T (c.app a).appId i val r ∧ r.paras.length = ps.length := by
  have hfresh := h.row_free hadd.fresh
  have hcols : ∀ b, ∀ r ∈ L.rows b, ((L.setRows a (xs ++ n :: ys)).setParas (.row n) ps).paras (.row r) = L.paras (.row r) := by
    intro b r hr
    refine setParas_of_ne _ ?_ _
    intro heq
    obtain rfl := ParaOwner.row.inj heq
    exact hfresh.1 b hr
  have hold : ∀ rs : List Nat, (∀ r ∈ rs, r ∈ L.rows a) →
      rs.map (c'.rowDoc ((L.setRows a (xs ++ n :: ys)).setParas (.row n) ps)) = rs.map (c.rowDoc L) := by
    intro rs hrs
    exact List.map_congr_left fun r hr => hadd.same.rowDoc (hrs r hr) (hcols a r (hrs r hr))
  refine ⟨c'.rowDoc ((L.setRows a (xs ++ n :: ys)).setParas (.row n) ps) n, ?_, ?_, ?_⟩
  · have hown : (L.paras (.app a)).map c'.paraDoc = (L.paras (.app a)).map c.paraDoc :=
      List.map_congr_left fun p hp => hadd.same.paraDoc hp
    have hdoc : c'.appDoc ((L.setRows a (xs ++ n :: ys)).setParas (.row n) ps) a =
        (c.appDoc L a).withRows (xs.map (c.rowDoc L) ++
          c'.rowDoc ((L.setRows a (xs ++ n :: ys)).setParas (.row n) ps) n :: ys.map (c.rowDoc L)) := by
      have hparas : ((L.setRows a (xs ++ n :: ys)).setParas (.row n) ps).paras (.app a) = L.paras (.app a) :=
        setParas_of_ne _ (by simp) _
      unfold appDoc AppDoc.withRows
      rw [hparas, hown, hadd.same.appId, hadd.same.appName, setParas_rows, setRows_self, List.map_append, List.map_cons,
        hold xs (fun r hr => by simp [hrows, hr]), hold ys (fun r hr => by simp [hrows, hr])]
    rw [← hdoc]
    refine map_range_eq_set fun b _ hb => hadd.same.appDoc ?_ ?_ (hcols b)
    · rw [setParas_rows, setRows_of_ne L hb]
    · exact setParas_of_ne _ (by simp) _
  · have hget : ∀ (j : Nat) q, ((ps.map c'.paraDoc)[j]? = some q) → ∃ p, ps[j]? = some p ∧ c'.paraDoc p = q := by
      intro j q hq
      rw [List.getElem?_map, Option.map_eq_some_iff] at hq
      exact hq
    have hparas : (c'.rowDoc ((L.setRows a (xs ++ n :: ys)).setParas (.row n) ps) n).paras = ps.map c'.paraDoc := by
      unfold rowDoc
      rw [setParas_self]
    refine ⟨hadd.rowId, ?_, ?_, ?_⟩
    all_goals
      intro j q hq
      rw [hparas] at hq
      obtain ⟨p, hp, rfl⟩ := hget j q hq
    · exact (hadd.columns j p hp).paraId
    · exact (hadd.columns j p hp).paraName
    · exact (hadd.columns j p hp).paraVal
  · unfold rowDoc
    rw [setParas_self, List.length_map]

/-- The contents behind the deleting of a row. -/
theorem docOn_rowDeleted (h : Holds T c L) {appIndex rowIndex : Int} {a r : Nat} {xs ys : List Nat}
    (hdel : RowDeleted T c L appIndex rowIndex a r xs ys c') :
    c'.docOn ((L.setRows a (xs ++ ys)).setParas (.row r) []) =
      (c.docOn L).set a ((c.appDoc L a).withRows (xs.map (c.rowDoc L) ++ ys.map (c.rowDoc L))) := by
  have hnodup := h.row_nodup a
  rw [hdel.rows] at hnodup
  have hr : r ∉ xs ++ ys := (List.nodup_cons.1 (List.perm_middle.nodup_iff.1 hnodup)).1
  have hcols : ∀ b, ∀ q ∈ L.rows b, q ≠ r →
      ((L.setRows a (xs ++ ys)).setParas (.row r) []).paras (.row q) = L.paras (.row q) := by
    intro b q _ hqr
    exact setParas_of_ne _ (fun heq => hqr (ParaOwner.row.inj heq)) _
  have happ : ∀ b, c'.appDoc ((L.setRows a (xs ++ ys)).setParas (.row r) []) b =
      c.appDoc ((L.setRows a (xs ++ ys)).setParas (.row r) []) b :=
    fun b => hdel.same.appDoc rfl rfl fun _ _ => rfl
  have hparas : ∀ b, ((L.setRows a (xs ++ ys)).setParas (.row r) []).paras (.app b) = L.paras (.app b) :=
    fun b => setParas_of_ne _ (by simp) _
  have hdoc : c'.appDoc ((L.setRows a (xs ++ ys)).setParas (.row r) []) a =
      (c.appDoc L a).withRows (xs.map (c.rowDoc L) ++ ys.map (c.rowDoc L)) := by
    have hrows : (xs ++ ys).map (c.rowDoc ((L.setRows a (xs ++ ys)).setParas (.row r) [])) = (xs ++ ys).map (c.rowDoc L) := by
      refine List.map_congr_left fun q hq => rowDoc_congr rfl (hcols a q ?_ ?_) fun _ _ => rfl
      · rw [hdel.rows]
        simp only [List.mem_append, List.mem_cons] at hq ⊢
        tauto
      · rintro rfl
        exact hr hq
    rw [happ]
    unfold appDoc AppDoc.withRows
    rw [hparas, setParas_rows, setRows_self, hrows, List.map_append]
  rw [← hdoc]
  refine map_range_eq_set fun b _ hb => ?_
  rw [happ]
  unfold appDoc
  rw [hparas, setParas_rows, setRows_of_ne L hb]
  congr 1
  refine List.map_congr_left fun q hq => rowDoc_congr rfl (hcols b q hq ?_) fun _ _ => rfl
  rintro rfl
  exact hb (h.row_owner b a q hq (by simp [hdel.rows]))

end Holds

/-! ## What a call does -/

/-- The call is one to add a row with the index `i` to the application `s`, the first one with the identifier: an index that is
given is not in use, and index zero stands for the smallest one that is not. -/
structure AddsRow (T : EntityTable) (d : List AppDoc) (appIndex rowIndex : Int) (val : Nat → Option (List Char)) (s : AppDoc)
    (rowMaxnum rowEnd : Nat) (i : Int) : Prop where
  valid : T.ValidApp appIndex
  given : (val 0).isSome = true
  table : T.appExistTable appIndex = some (rowMaxnum, rowEnd)
  range : 0 ≤ rowIndex ∧ rowIndex ≤ rowMaxnum
  app : d.find? (fun s => s.appId == appIndex) = some s
  one_le : 1 ≤ i
  explicit : 0 < rowIndex → i = rowIndex
  least : rowIndex = 0 → ∀ k, 1 ≤ k → k < i → ∃ r ∈ s.rows, r.rowId = getRowId appIndex k
  unused : ∀ r ∈ s.rows, r.rowId ≠ getRowId appIndex i

/-- There are free parameters for all columns of the row, and names for all of them. -/
def ColumnsAvailable (T : EntityTable) (d : List AppDoc) (appIndex i : Int) (rowEnd : Nat) : Prop :=
  parasIn d + (rowEnd - 1) ≤ T.gMaxParaNum ∧
    ∀ j, j < rowEnd - 1 → (T.columnName (getParaId appIndex i ((j : Nat) + 1))).isSome = true

/-- A row was added to the application `s`, the one with the number `a`, between its rows `xs` and `ys`. -/
structure AddedAt (T : EntityTable) (d : List AppDoc) (appIndex rowIndex : Int) (val : Nat → Option (List Char)) (a : Nat)
    (s : AppDoc) (rowMaxnum rowEnd : Nat) (xs ys : List RowDoc) (i : Int) (r : RowDoc) : Prop where
  adds : AddsRow T d appIndex rowIndex val s rowMaxnum rowEnd i
  free : rowsIn d < T.gMaxTabNum
  app : d[a]? = some s
  rows : s.rows = xs ++ ys
  before : ∀ q ∈ xs, q.rowId < getRowId appIndex i
  behind : ∀ q ∈ ys, getRowId appIndex i < q.rowId
  row : IsNewRow T appIndex i val r

/-- What a call does to the contents: nothing, a value is written, a row is added with as many of its columns as fit, or a row is
taken out. -/
inductive Change (T : EntityTable) (d : List AppDoc) : ConfCall → Int → List AppDoc → Prop where
  | nothing {call : ConfCall} (h : ∀ appIndex rowIndex val s rowMaxnum rowEnd i, call = .addTableRow appIndex rowIndex val →
      AddsRow T d appIndex rowIndex val s rowMaxnum rowEnd i → ¬rowsIn d < T.gMaxTabNum) : Change T d call (-1) d
  | written {appIndex paraIndex : Int} {val : List Char} {d' : List AppDoc}
      (h : List.Forall₂ (AppDoc.Written val) d d') : Change T d (.writeParameter appIndex paraIndex val) 0 d'
  | tableWritten {appIndex rowIndex paraIndex : Int} {val : List Char} {d' : List AppDoc}
      (h : List.Forall₂ (AppDoc.Written val) d d') : Change T d (.writeTableParameter appIndex rowIndex paraIndex val) 0 d'
  | added {appIndex rowIndex : Int} {val : Nat → Option (List Char)} {a : Nat} {s : AppDoc} {rowMaxnum rowEnd : Nat}
      {xs ys : List RowDoc} {i : Int} {r : RowDoc} {ret : Int}
      (h : AddedAt T d appIndex rowIndex val a s rowMaxnum rowEnd xs ys i r)
      (hret : ret = 0 ∧ r.paras.length = rowEnd - 1 ∧ ColumnsAvailable T d appIndex i rowEnd ∨
        ret = -1 ∧ r.paras.length ≠ rowEnd - 1 ∧ ¬ColumnsAvailable T d appIndex i rowEnd) :
      Change T d (.addTableRow appIndex rowIndex val) ret (d.set a (s.withRows (xs ++ r :: ys)))
  | deleted {appIndex rowIndex : Int} {a : Nat} {s : AppDoc} {xs ys : List RowDoc} {r : RowDoc}
      (happ : d[a]? = some s) (hid : s.appId = appIndex) (hrows : s.rows = xs ++ r :: ys)
      (hr : r.rowId = getRowId appIndex rowIndex) :
      Change T d (.deleteTableRow appIndex rowIndex) 0 (d.set a (s.withRows (xs ++ ys)))

namespace Holds

variable {T : EntityTable} {c : Cache} {L : Layout}

/-- The first application with an identifier, among the contents. -/
theorem find?_docOn {appIndex : Int} {a : Nat} (ha : FirstApp c L appIndex a) :
    (c.docOn L).find? (fun s => s.appId == appIndex) = some (c.appDoc L a) := by
  obtain ⟨hlt, hid, hfirst⟩ := ha
  unfold docOn
  rw [List.find?_map]
  have hfind : (List.range L.apps).find? ((fun s : AppDoc => s.appId == appIndex) ∘ c.appDoc L) = some a := by
    refine List.find?_range_eq_some.2 ⟨by simpa [appDoc] using hid, List.mem_range.2 hlt, ?_⟩
    intro b hb
    simpa [appDoc] using hfirst b hb
  rw [hfind]
  rfl

/-- The place that the call finds is one for a row to be added. -/
theorem adds_of_spot {appIndex rowIndex : Int} {val : Nat → Option (List Char)} {a rowMaxnum rowEnd : Nat} {xs ys : List Nat}
    {i : Int} (hs : Spot T c L appIndex rowIndex val a rowMaxnum rowEnd xs i ys) :
    AddsRow T (c.docOn L) appIndex rowIndex val (c.appDoc L a) rowMaxnum rowEnd i where
  valid := hs.valid
  given := hs.given
  table := hs.table
  range := hs.range
  app := find?_docOn hs.app
  one_le := hs.one_le
  explicit := hs.explicit
  least := fun hzero k hk hki => by
    obtain ⟨hi, hxs⟩ := hs.gap hzero
    have hlt : (k - 1).toNat < xs.length := by omega
    refine ⟨c.rowDoc L xs[(k - 1).toNat], ?_, ?_⟩
    · unfold appDoc
      refine List.mem_map_of_mem ?_
      rw [hs.place.split]
      exact List.mem_append_left _ (List.getElem_mem hlt)
    · have hid := hxs (k - 1).toNat _ (List.getElem?_eq_getElem hlt)
      rw [hs.app.2.1] at hid
      refine Eq.trans hid ?_
      rw [getRowId_inj]
      omega
  unused := fun r hr => by
    unfold appDoc at hr
    obtain ⟨q, hq, rfl⟩ := List.mem_map.1 hr
    rw [hs.place.split] at hq
    have hplace := hs.place
    rw [hs.app.2.1] at hplace
    show (c.row q).rowId ≠ _
    rcases List.mem_append.1 hq with hq | hq
    · exact Int.ne_of_lt (hplace.before q hq)
    · exact (Int.ne_of_lt (hplace.behind q hq)).symm

/-- The call finds a place when it is one to add a row. -/
theorem addSpot_of_adds (h : Holds T c L) (ho : Ordered c L) {appIndex rowIndex : Int} {val : Nat → Option (List Char)}
    {s : AppDoc} {rowMaxnum rowEnd : Nat} {i : Int}
    (hadds : AddsRow T (c.docOn L) appIndex rowIndex val s rowMaxnum rowEnd i) :
    c.addSpot T appIndex rowIndex val ≠ none := by
  have happ := hadds.app
  unfold docOn at happ
  rw [List.find?_map, Option.map_eq_some_iff] at happ
  obtain ⟨a, ha, rfl⟩ := happ
  have hid : (c.app a).appId = appIndex := by simpa [appDoc] using List.find?_some ha
  have hfind : c.findApp T appIndex = .done (some a) := by
    rw [h.findApp_eq]
    exact congrArg Outcome.done ha
  unfold addSpot
  rw [if_pos ⟨hadds.valid, hadds.given⟩, hfind, hadds.table]
  simp only
  rw [if_neg (by have := hadds.range; omega)]
  rcases h.rowPlace_cases ho (a := a) hadds.range.1 with ⟨hpos, ⟨r, hr, heq⟩, -⟩ | ⟨xs, k, ys, -, -, -, -, heq⟩
  · refine absurd ?_ (hadds.unused (c.rowDoc L r) (List.mem_map_of_mem hr))
    rw [hadds.explicit hpos, ← hid]
    exact heq
  · rw [hid] at heq
    rw [heq]
    exact Option.some_ne_none _

theorem columnsFit_iff (h : Holds T c L) (appIndex i : Int) (rowEnd : Nat) :
    ColumnsFit T c appIndex i rowEnd ↔ ColumnsAvailable T (c.docOn L) appIndex i rowEnd := by
  have hcount := h.freeParaNum_add
  unfold ColumnsFit ColumnsAvailable
  refine and_congr ?_ Iff.rfl
  omega

end Holds

/-- A row is put in its place. -/
theorem rowsAscend_set_added {d : List AppDoc} (hd : RowsAscend d) {a : Nat} {s : AppDoc} (hs : d[a]? = some s)
    {xs ys : List RowDoc} (hrows : s.rows = xs ++ ys) {r : RowDoc} (hbefore : ∀ q ∈ xs, q.rowId < r.rowId)
    (hbehind : ∀ q ∈ ys, r.rowId < q.rowId) : RowsAscend (d.set a (s.withRows (xs ++ r :: ys))) := by
  intro t ht
  rcases List.mem_or_eq_of_mem_set ht with ht | rfl
  · exact hd t ht
  · have hasc := hd s (List.mem_of_getElem? hs)
    rw [hrows, List.pairwise_append] at hasc
    obtain ⟨hxs, hys, hcross⟩ := hasc
    show (xs ++ r :: ys).Pairwise _
    rw [List.pairwise_append, List.pairwise_cons]
    refine ⟨hxs, ⟨hbehind, hys⟩, ?_⟩
    intro q hq q' hq'
    rcases List.mem_cons.1 hq' with rfl | hq'
    · exact hbefore q hq
    · exact hcross q hq q' hq'

theorem rowsAscend_of_written {val : List Char} {d d' : List AppDoc} (h : List.Forall₂ (AppDoc.Written val) d d')
    (hd : RowsAscend d) : RowsAscend d' := by
  intro s' hs'
  obtain ⟨s, hs, hw⟩ := exists_of_forall₂ h hs'
  have hasc : (s.rows.map RowDoc.rowId).Pairwise (· < ·) := List.pairwise_map.2 (hd s hs)
  rw [← hw.rowIds] at hasc
  exact List.pairwise_map.1 hasc

theorem rowsIndexed_of_written {val : List Char} {d d' : List AppDoc} (h : List.Forall₂ (AppDoc.Written val) d d')
    (hd : RowsIndexed d) : RowsIndexed d' := by
  intro s' hs' r' hr'
  obtain ⟨s, hs, hw⟩ := exists_of_forall₂ h hs'
  obtain ⟨r, hr, hrw⟩ := exists_of_forall₂ hw.rows hr'
  obtain ⟨i, hi, heq⟩ := hd s hs r hr
  exact ⟨i, hi, by rw [hrw.rowId, heq, hw.appId]⟩

theorem AddsRow.appId {T : EntityTable} {d : List AppDoc} {appIndex rowIndex : Int} {val : Nat → Option (List Char)} {s : AppDoc}
    {rowMaxnum rowEnd : Nat} {i : Int} (h : AddsRow T d appIndex rowIndex val s rowMaxnum rowEnd i) : s.appId = appIndex := by
  simpa using List.find?_some h.app

namespace Change

variable {T : EntityTable} {d d' : List AppDoc} {call : ConfCall} {ret : Int}

/-- Every change keeps the order of the rows. -/
theorem keeps_order (h : Change T d call ret d') (hidx : RowsIndexed d) (hasc : RowsAscend d) :
    RowsIndexed d' ∧ RowsAscend d' := by
  cases h with
  | nothing => exact ⟨hidx, hasc⟩
  | written hw => exact ⟨rowsIndexed_of_written hw hidx, rowsAscend_of_written hw hasc⟩
  | tableWritten hw => exact ⟨rowsIndexed_of_written hw hidx, rowsAscend_of_written hw hasc⟩
  | @added appIndex rowIndex val a s rowMaxnum rowEnd xs ys i r _ h _ =>
    refine ⟨?_, rowsAscend_set_added hasc h.app h.rows ?_ ?_⟩
    · intro t ht q hq
      rcases List.mem_or_eq_of_mem_set ht with ht | rfl
      · exact hidx t ht q hq
      · have hold := hidx s (List.mem_of_getElem? h.app)
        rw [h.rows] at hold
        rcases List.mem_append.1 hq with hq | hq
        · exact hold q (List.mem_append_left _ hq)
        · rcases List.mem_cons.1 hq with rfl | hq
          · exact ⟨i, h.adds.one_le, by rw [h.row.rowId, ← h.adds.appId]; rfl⟩
          · exact hold q (List.mem_append_right _ hq)
    · rw [h.row.rowId]
      exact h.before
    · rw [h.row.rowId]
      exact h.behind
  | @deleted appIndex rowIndex a s xs ys r happ hid hrows hr =>
    have hmem := List.mem_of_getElem? happ
    have hsub : (xs ++ ys).Sublist s.rows := by
      rw [hrows]
      exact (List.Sublist.refl xs).append (List.sublist_cons_self r ys)
    refine ⟨?_, ?_⟩
    · intro t ht q hq
      rcases List.mem_or_eq_of_mem_set ht with ht | rfl
      · exact hidx t ht q hq
      · exact hidx s hmem q (hsub.subset hq)
    · intro t ht
      rcases List.mem_or_eq_of_mem_set ht with ht | rfl
      · exact hasc t ht
      · exact (hasc s hmem).sublist hsub

end Change

/-- **What a call does**: it returns, and behind it the cache has a layout again, with contents as the call changes them. -/
theorem Holds.run_cases {T : EntityTable} {c : Cache} {L : Layout} (h : Holds T c L) (ho : Ordered c L) (call : ConfCall) :
    ∃ ret c' L', call.run T c = .done (ret, c') ∧ Holds T c' L' ∧ Change T (c.docOn L) call ret (c'.docOn L') := by
  cases call with
  | writeParameter appIndex paraIndex val =>
    rcases h.configApiWriteParameter_cases appIndex paraIndex val with heq | ⟨o, p, -, heq⟩
    · exact ⟨-1, c, L, heq, h, .nothing fun _ _ _ _ _ _ _ hc => by cases hc⟩
    · exact ⟨0, _, L, heq, h.writeVal p val, .written (c.docOn_writeVal p val L)⟩
  | writeTableParameter appIndex rowIndex paraIndex val =>
    rcases h.configApiWriteTableParameter_cases appIndex rowIndex paraIndex val with heq | ⟨o, p, -, heq⟩
    · exact ⟨-1, c, L, heq, h, .nothing fun _ _ _ _ _ _ _ hc => by cases hc⟩
    · exact ⟨0, _, L, heq, h.writeVal p val, .tableWritten (c.docOn_writeVal p val L)⟩
  | addTableRow appIndex rowIndex val =>
    have hcount := h.freeRowNum_add
    rcases h.configApiAddTableRow_cases ho appIndex rowIndex val with
      ⟨heq, hwhy⟩ | ⟨a, rowMaxnum, rowEnd, xs, i, ys, n, ps, c', ret, hspot, hs, hadded, heq, hfree, hret⟩
    · refine ⟨-1, c, L, heq, h, .nothing fun _ _ _ _ _ _ _ hc hadds => ?_⟩
      cases hc
      rcases hwhy with hnone | hfull
      · exact absurd hnone (h.addSpot_of_adds ho hadds)
      · omega
    · have hrows := hs.place.split
      obtain ⟨r, hset, hnew, hlen⟩ := h.docOn_rowAdded hrows hadded
      refine ⟨ret, c', _, heq, hadded.holds, ?_⟩
      rw [hset]
      rw [← hlen, h.columnsFit_iff] at hret
      refine .added ⟨Holds.adds_of_spot hs, by omega, ?_, ?_, ?_, ?_, hs.app.2.1 ▸ hnew⟩ hret
      · rw [getElem?_docOn]
        exact ⟨hs.app.1, rfl⟩
      · unfold appDoc
        rw [hrows, List.map_append]
      · rw [List.forall_mem_map, ← hs.app.2.1]
        exact hs.place.before
      · rw [List.forall_mem_map, ← hs.app.2.1]
        exact hs.place.behind
  | deleteTableRow appIndex rowIndex =>
    rcases h.configApiDeleteTableRow_cases ho appIndex rowIndex with ⟨heq, -⟩ | ⟨a, r, xs, ys, c', hdel, heq⟩
    · exact ⟨-1, c, L, heq, h, .nothing fun _ _ _ _ _ _ _ hc => by cases hc⟩
    · refine ⟨0, c', _, heq, hdel.holds, ?_⟩
      rw [h.docOn_rowDeleted hdel]
      refine .deleted ?_ hdel.app.2.1 ?_ (show (c.rowDoc L r).rowId = _ from hdel.rowId)
      · rw [getElem?_docOn]
        exact ⟨hdel.app.1, rfl⟩
      · unfold appDoc
        rw [hdel.rows, List.map_append, List.map_cons]

/-- **A call keeps the invariant** of a cache, and changes its contents as the call does. -/
theorem Sound.run {T : EntityTable} {c : Cache} (h : Sound T c) (call : ConfCall) :
    ∃ ret c', call.run T c = .done (ret, c') ∧ Sound T c' ∧ Change T (c.doc T) call ret (c'.doc T) := by
  obtain ⟨ret, c', L', heq, hholds, hchange⟩ := h.holds.run_cases h.ordered call
  have hidx := (h.holds.ordered_iff).1 h.ordered
  refine ⟨ret, c', heq, .of_holds hholds ?_, by rw [h.holds.doc_eq, hholds.doc_eq]; exact hchange⟩
  exact (hholds.ordered_iff).2 (hchange.keeps_order hidx.1 hidx.2)

/-- A step of a run, of a cache with the invariant: nothing without the semaphore, and else what the call does. -/
theorem Sound.step {T : EntityTable} {c c' : Cache} (h : Sound T c) {a : ConfAct} (hstep : confStep T c a = some c') :
    Sound T c' ∧ ((a.locked = false ∧ c' = c) ∨
      a.locked = true ∧ ∃ ret, a.call.run T c = .done (ret, c') ∧ Change T (c.doc T) a.call ret (c'.doc T)) := by
  unfold confStep at hstep
  cases hlocked : a.locked with
  | false =>
    rw [hlocked] at hstep
    obtain rfl := Option.some.inj hstep
    exact ⟨h, Or.inl ⟨rfl, rfl⟩⟩
  | true =>
    obtain ⟨ret, c₁, heq, hsound, hchange⟩ := h.run a.call
    rw [if_pos hlocked, heq] at hstep
    obtain rfl := Option.some.inj hstep
    exact ⟨hsound, Or.inr ⟨rfl, ret, heq, hchange⟩⟩

end CodeFactory.Conf
