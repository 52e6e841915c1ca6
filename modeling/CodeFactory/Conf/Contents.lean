import CodeFactory.Conf.Calls
import CodeFactory.Conf.Load

/-!
# The contents of a file and of a cache

The contents of a file as a list of applications, line by line, and which lines fit the pools. Then what the contents of a cache
are after a change of its nodes.
-/

namespace CodeFactory.Conf

open Cache Layout

/-- The identifier of a name that is found is one of the table. -/
theorem EntityTable.getAppIdByName_bounds (T : EntityTable) {name : List Char} (h : T.getAppIdByName name ≠ -1) :
    0 ≤ T.getAppIdByName name ∧ T.getAppIdByName name < T.idEnd := by
  unfold getAppIdByName at h ⊢
  cases hfind : T.entities.find? fun e => e.name == name with
  | none =>
    rw [hfind] at h
    exact absurd rfl h
  | some e =>
    have := T.below e (List.mem_of_find?_eq_some hfind)
    simp only
    omega

/-! ## The contents of a file -/

/-- A parameter as a line of the file gives it. -/
def ParaDoc.ofLine (id : Int) (name val : List Char) : ParaDoc := ⟨id, name.take (maxNameLen - 1), val.take (maxValueLen - 1)⟩

namespace AppDoc

variable (s : AppDoc)

/-- The identifier of the next parameter of the application or its last row. -/
def nextId : Int :=
  match s.rows.getLast? with
  | some r => r.rowId + (r.paras.length + 1 : Nat)
  | none => getRowId s.appId 0 + (s.paras.length + 1 : Nat)

/-- The application with another row. -/
def addRow (n : Int) : AppDoc := { s with rows := s.rows ++ [⟨getRowId s.appId n, []⟩] }

/-- The application with another parameter, of the application or of its last row. -/
def addPara (name val : List Char) : AppDoc :=
  match s.rows.getLast? with
  | some r =>
    { s with rows := s.rows.dropLast ++ [{ r with paras := r.paras ++ [ParaDoc.ofLine s.nextId name val] }] }
  | none => { s with paras := s.paras ++ [ParaDoc.ofLine s.nextId name val] }

end AppDoc

/-- The last application is changed. -/
def changeLast (d : List AppDoc) (f : AppDoc → AppDoc) : List AppDoc :=
  match d.getLast? with
  | some s => d.dropLast ++ [f s]
  | none => d

/-- What a line adds to the contents of the lines before it, if it is accepted. -/
def readLine (T : EntityTable) (d : List AppDoc) : ConfLine → Option (List AppDoc)
  | .app name =>
    if T.getAppIdByName (name.take (maxNameLen - 1)) = -1 then none
    else some (d ++ [⟨T.getAppIdByName (name.take (maxNameLen - 1)), name.take (maxNameLen - 1), [], []⟩])
  | .row num => if atoi num ≤ 0 then none else some (changeLast d fun s => s.addRow (atoi num))
  | .para name val => some (changeLast d fun s => s.addPara name val)
  | .malformed => none

/-- The contents of the lines, if all of them are accepted. -/
def readLines (T : EntityTable) (d : List AppDoc) : List ConfLine → Option (List AppDoc)
  | [] => some d
  | line :: lines => (readLine T d line).bind fun d => readLines T d lines

/-- The number of rows. -/
def rowsIn (d : List AppDoc) : Nat := (d.map fun s => s.rows.length).sum

/-- The number of parameters. -/
def parasIn (d : List AppDoc) : Nat := (d.map fun s => s.paras.length + (s.rows.map fun r => r.paras.length).sum).sum

/-- There is a node for what the line holds, the line has an application to belong to, and its number is an `int`. -/
def Fits (T : EntityTable) (d : List AppDoc) : ConfLine → Prop
  | .app _ => d.length < T.gMaxAppNum
  | .row num => -intMax - 1 ≤ atoi num ∧ atoi num ≤ intMax ∧
      (0 < atoi num → ∃ s ∈ d.getLast?, rowsIn d < T.gMaxTabNum ∧ getRowId s.appId (atoi num) ≤ intMax)
  | .para _ _ => ∃ s ∈ d.getLast?, parasIn d < T.gMaxParaNum ∧ s.nextId ≤ intMax
  | .malformed => True

instance (T : EntityTable) (d : List AppDoc) (line : ConfLine) : Decidable (Fits T d line) := by
  unfold Fits
  cases line <;> infer_instance

/-- Every line up to the first one that is rejected fits. -/
def LinesFit (T : EntityTable) (d : List AppDoc) : List ConfLine → Prop
  | [] => True
  | line :: lines => Fits T d line ∧ ∀ d' ∈ readLine T d line, LinesFit T d' lines

instance decidableLinesFit (T : EntityTable) : (d : List AppDoc) → (lines : List ConfLine) → Decidable (LinesFit T d lines)
  | _, [] => inferInstanceAs (Decidable True)
  | d, line :: lines =>
    have := fun d' => decidableLinesFit T d' lines
    inferInstanceAs (Decidable (Fits T d line ∧ ∀ d' ∈ readLine T d line, LinesFit T d' lines))

/-! ## The contents of a cache that is changed -/

namespace Cache

variable {c c' : Cache} {L L' : Layout}

theorem rowDoc_congr {r : Nat} (hid : (c'.row r).rowId = (c.row r).rowId) (hparas : L'.paras (.row r) = L.paras (.row r))
    (hdoc : ∀ p ∈ L.paras (.row r), c'.paraDoc p = c.paraDoc p) : c'.rowDoc L' r = c.rowDoc L r := by
  rw [rowDoc, rowDoc, hid, hparas, List.map_congr_left hdoc]

theorem SameOn.paraDoc (h : SameOn L c c') {o : ParaOwner} {p : Nat} (hp : p ∈ L.paras o) : c'.paraDoc p = c.paraDoc p := by
  obtain ⟨hid, hname, hval⟩ := h.para o p hp
  rw [Cache.paraDoc, Cache.paraDoc, hid, hname, hval]

theorem SameOn.rowDoc (h : SameOn L c c') {a r : Nat} (hr : r ∈ L.rows a) (hparas : L'.paras (.row r) = L.paras (.row r)) :
    c'.rowDoc L' r = c.rowDoc L r :=
  rowDoc_congr (h.rowId a r hr) hparas fun _ hp => h.paraDoc hp

/-- An application that is as it was. -/
theorem SameOn.appDoc (h : SameOn L c c') {a : Nat} (hrows : L'.rows a = L.rows a)
    (hparas : L'.paras (.app a) = L.paras (.app a)) (hcols : ∀ r ∈ L.rows a, L'.paras (.row r) = L.paras (.row r)) :
    c'.appDoc L' a = c.appDoc L a := by
  have hmap : (L.rows a).map (c'.rowDoc L') = (L.rows a).map (c.rowDoc L) :=
    List.map_congr_left fun r hr => h.rowDoc hr (hcols r hr)
  have hown : (L.paras (.app a)).map c'.paraDoc = (L.paras (.app a)).map c.paraDoc :=
    List.map_congr_left fun p hp => h.paraDoc hp
  rw [Cache.appDoc, Cache.appDoc, h.appId, h.appName, hrows, hparas, hmap, hown]

/-- The contents, the last application apart. -/
theorem docOn_succ {n : Nat} (hn : L.apps = n + 1) : c.docOn L = (List.range n).map (c.appDoc L) ++ [c.appDoc L n] := by
  rw [docOn, hn, List.range_succ, List.map_append, List.map_singleton]

theorem docOn_changeLast {n : Nat} (hn : L.apps = n + 1) (hn' : L'.apps = n + 1) {f : AppDoc → AppDoc}
    (hlast : c'.appDoc L' n = f (c.appDoc L n)) (hother : ∀ a, a < n → c'.appDoc L' a = c.appDoc L a) :
    c'.docOn L' = changeLast (c.docOn L) f := by
  have hmap : (List.range n).map (c'.appDoc L') = (List.range n).map (c.appDoc L) :=
    List.map_congr_left fun a ha => hother a (List.mem_range.1 ha)
  rw [docOn_succ hn, docOn_succ hn', changeLast, List.getLast?_concat, List.dropLast_concat, hlast, hmap]

end Cache

theorem Holds.doc_eq {T : EntityTable} {c : Cache} {L : Layout} (h : Holds T c L) : c.doc T = c.docOn L := by
  rw [Cache.doc, h.layout_eq]

theorem getElem?_docOn {c : Cache} {L : Layout} {a : Nat} {s : AppDoc} :
    (c.docOn L)[a]? = some s ↔ a < L.apps ∧ c.appDoc L a = s := by
  unfold docOn
  rw [List.getElem?_map]
  by_cases ha : a < L.apps
  · rw [List.getElem?_range ha]
    simp [ha]
  · rw [List.getElem?_eq_none (by rw [List.length_range]; omega)]
    simp [ha]

/-! ## The order of the rows -/

/-- The rows of every application ascend. -/
def RowsAscend (d : List AppDoc) : Prop := ∀ s ∈ d, s.rows.Pairwise fun r r' => r.rowId < r'.rowId

instance (d : List AppDoc) : Decidable (RowsAscend d) :=
  inferInstanceAs (Decidable (∀ s ∈ d, s.rows.Pairwise fun r r' => r.rowId < r'.rowId))

/-- The rows of every application have an index. -/
def RowsIndexed (d : List AppDoc) : Prop := ∀ s ∈ d, ∀ r ∈ s.rows, ∃ i : Int, 1 ≤ i ∧ r.rowId = getRowId s.appId i

theorem rowsAscend_docOn {c : Cache} {L : Layout} :
    RowsAscend (c.docOn L) ↔ ∀ a, a < L.apps → (L.rows a).Pairwise fun r r' => (c.row r).rowId < (c.row r').rowId := by
  unfold RowsAscend docOn
  rw [List.forall_mem_map]
  refine forall_congr' fun a => ?_
  rw [List.mem_range]
  unfold appDoc
  rw [List.pairwise_map]
  rfl

theorem rowsIndexed_docOn {c : Cache} {L : Layout} :
    RowsIndexed (c.docOn L) ↔
      ∀ a, a < L.apps → ∀ r ∈ L.rows a, ∃ i : Int, 1 ≤ i ∧ (c.row r).rowId = getRowId (c.app a).appId i := by
  unfold RowsIndexed docOn
  rw [List.forall_mem_map]
  refine forall_congr' fun a => ?_
  rw [List.mem_range]
  unfold appDoc
  rw [List.forall_mem_map]
  rfl

/-- The order of the rows, as the contents show it. -/
theorem Holds.ordered_iff {T : EntityTable} {c : Cache} {L : Layout} (h : Holds T c L) :
    Ordered c L ↔ RowsIndexed (c.docOn L) ∧ RowsAscend (c.docOn L) := by
  rw [rowsIndexed_docOn, rowsAscend_docOn]
  constructor
  · intro ho
    exact ⟨fun a _ => ho.indexed a, fun a _ => ho.ascending a⟩
  · rintro ⟨hidx, hasc⟩
    refine ⟨fun a r hr => hidx a (h.row_mem a r hr).1 r hr, fun a => ?_⟩
    by_cases ha : a < L.apps
    · exact hasc a ha
    · have hnil : L.rows a = [] := by
        rw [List.eq_nil_iff_forall_not_mem]
        intro r hr
        exact ha (h.row_mem a r hr).1
      rw [hnil]
      exact List.Pairwise.nil

/-! ## Counting -/

theorem changeLast_concat (d : List AppDoc) (s : AppDoc) (f : AppDoc → AppDoc) : changeLast (d ++ [s]) f = d ++ [f s] := by
  rw [changeLast, List.getLast?_concat, List.dropLast_concat]

theorem rowsIn_append (d e : List AppDoc) : rowsIn (d ++ e) = rowsIn d + rowsIn e := by
  rw [rowsIn, List.map_append, List.sum_append]
  rfl

theorem parasIn_append (d e : List AppDoc) : parasIn (d ++ e) = parasIn d + parasIn e := by
  rw [parasIn, List.map_append, List.sum_append]
  rfl

@[simp] theorem rowsIn_singleton (s : AppDoc) : rowsIn [s] = s.rows.length := by
  simp [rowsIn]

@[simp] theorem parasIn_singleton (s : AppDoc) :
    parasIn [s] = s.paras.length + (s.rows.map fun r => r.paras.length).sum := by
  simp [parasIn]

@[simp] theorem AppDoc.rowsIn_addRow (s : AppDoc) (n : Int) : rowsIn [s.addRow n] = rowsIn [s] + 1 := by
  simp [addRow]

@[simp] theorem AppDoc.parasIn_addRow (s : AppDoc) (n : Int) : parasIn [s.addRow n] = parasIn [s] := by
  simp [addRow]

theorem AppDoc.eq_of_getLast? {s : AppDoc} {r : RowDoc} (h : s.rows.getLast? = some r) : s.rows = s.rows.dropLast ++ [r] := by
  rw [List.getLast?_eq_some_iff] at h
  obtain ⟨xs, hxs⟩ := h
  rw [hxs, List.dropLast_concat]

@[simp] theorem AppDoc.rowsIn_addPara (s : AppDoc) (name val : List Char) : rowsIn [s.addPara name val] = rowsIn [s] := by
  unfold addPara
  cases h : s.rows.getLast? with
  | none => simp
  | some r =>
    have hrows := congrArg List.length (eq_of_getLast? h)
    simpa using hrows.symm

@[simp] theorem AppDoc.parasIn_addPara (s : AppDoc) (name val : List Char) : parasIn [s.addPara name val] = parasIn [s] + 1 := by
  unfold addPara
  cases h : s.rows.getLast? with
  | none =>
    simp
    omega
  | some r =>
    have hrows := congrArg (fun rows => (rows.map fun r : RowDoc => r.paras.length).sum) (eq_of_getLast? h)
    simp only [List.map_append, List.map_singleton, List.sum_append, List.sum_singleton] at hrows
    simp only [parasIn_singleton, List.map_append, List.map_singleton, List.sum_append, List.sum_singleton, List.length_append,
      List.length_singleton, hrows]
    omega

end CodeFactory.Conf
