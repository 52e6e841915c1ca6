import CodeFactory.Conf.LoadSafety

/-!
# Writing the file

`config_api_write_to_flash`, with the semaphore and a file that can be opened. The lines that it writes are those of a list of
items, one for every node, and the contents are built of the same items again, one after the other.
-/

namespace CodeFactory.Conf

open Cache Layout

/-- `( row_id >> 8 ) & 0x000000ff`. -/
def rowNumber (rowId : Int) : Nat := (rowId / 256 % 256).toNat

namespace Cache

variable (T : EntityTable) (c : Cache)

/-- `fprintf` with `"%s=%s\n"`, of every parameter of a list. -/
def writeParas (o : ParaOwner) : List Char :=
  (c.listedParas T o).flatMap fun p => (c.para p).paraName ++ '=' :: ((c.para p).paraVal ++ ['\n'])

/-- The loop over the rows of an application. -/
def writeRows (a : Nat) : List Char :=
  (c.listedRows T a).flatMap fun r =>
    '<' :: (Nat.toDigits 10 (rowNumber (c.row r).rowId) ++ ['>', '\n']) ++ c.writeParas T (.row r)

/-- `config_api_write_to_flash`: the file that it writes. -/
def configApiWriteToFlash : List Char :=
  (c.listedApps T).flatMap fun a => '[' :: ((c.app a).appName ++ [']', '\n']) ++ c.writeParas T (.app a) ++ c.writeRows T a

end Cache

/-! ## Items -/

/-- A node, as the loops come to it. A row knows the identifier of its application. -/
inductive DocItem where
  | app (appId : Int) (appName : List Char)
  | row (appId rowId : Int)
  | para (q : ParaDoc)
  deriving DecidableEq

/-- The line of a node. -/
def DocItem.text : DocItem → List Char
  | .app _ appName => '[' :: (appName ++ [']', '\n'])
  | .row _ rowId => '<' :: (Nat.toDigits 10 (rowNumber rowId) ++ ['>', '\n'])
  | .para q => q.paraName ++ '=' :: (q.paraVal ++ ['\n'])

def RowDoc.items (appId : Int) (r : RowDoc) : List DocItem := .row appId r.rowId :: r.paras.map DocItem.para

/-- The items of an application. -/
def AppDoc.items (s : AppDoc) : List DocItem :=
  .app s.appId s.appName :: (s.paras.map DocItem.para ++ s.rows.flatMap (RowDoc.items s.appId))

/-- The items of the contents. -/
def docItems (d : List AppDoc) : List DocItem := d.flatMap AppDoc.items

/-- The file has the lines of the items. -/
theorem Holds.configApiWriteToFlash_eq {T : EntityTable} {c : Cache} {L : Layout} (h : Holds T c L) :
    c.configApiWriteToFlash T = (docItems (c.docOn L)).flatMap DocItem.text := by
  have hparas : ∀ o, c.writeParas T o = (((L.paras o).map c.paraDoc).map DocItem.para).flatMap DocItem.text := by
    intro o
    rw [writeParas, h.listedParas_eq, List.flatMap_map, List.flatMap_map]
    rfl
  have hrows : ∀ a, c.writeRows T a = (((L.rows a).map (c.rowDoc L)).flatMap (RowDoc.items (c.app a).appId)).flatMap
      DocItem.text := by
    intro a
    rw [writeRows, h.listedRows_eq, List.flatMap_map, List.flatMap_assoc]
    refine List.flatMap_congr fun r _ => ?_
    rw [hparas]
    rfl
  unfold configApiWriteToFlash docItems docOn
  rw [h.listedApps_eq, List.flatMap_map, List.flatMap_assoc]
  refine List.flatMap_congr fun a _ => ?_
  rw [hparas, hrows, AppDoc.items, List.flatMap_cons, List.flatMap_append, List.append_assoc]
  rfl

/-- The application with another parameter, its own or one of its last row. -/
def AppDoc.withPara (s : AppDoc) (q : ParaDoc) : AppDoc :=
  match s.rows.getLast? with
  | some r => s.withRows (s.rows.dropLast ++ [{ r with paras := r.paras ++ [q] }])
  | none => { s with paras := s.paras ++ [q] }

/-- The contents with another item. -/
def addItem (d : List AppDoc) : DocItem → List AppDoc
  | .app appId appName => d ++ [⟨appId, appName, [], []⟩]
  | .row _ rowId => changeLast d fun s => s.withRows (s.rows ++ [⟨rowId, []⟩])
  | .para q => changeLast d fun s => s.withPara q

theorem docItems_append (d e : List AppDoc) : docItems (d ++ e) = docItems d ++ docItems e := List.flatMap_append

theorem docItems_singleton (s : AppDoc) : docItems [s] = s.items := List.flatMap_singleton _ _

/-- The items of an application with another parameter. -/
theorem AppDoc.items_withPara (s : AppDoc) (q : ParaDoc) : (s.withPara q).items = s.items ++ [.para q] := by
  unfold withPara
  cases hlast : s.rows.getLast? with
  | none =>
    have hnil : s.rows = [] := List.getLast?_eq_none_iff.1 hlast
    unfold items
    simp [hnil]
  | some r =>
    have hrows := eq_of_getLast? hlast
    unfold items withRows
    simp only
    rw [List.flatMap_append, List.flatMap_singleton, RowDoc.items, List.map_append, List.map_singleton]
    conv_rhs => rw [hrows, List.flatMap_append, List.flatMap_singleton, RowDoc.items]
    simp

theorem AppDoc.items_withRow (s : AppDoc) (rowId : Int) :
    (s.withRows (s.rows ++ [⟨rowId, []⟩])).items = s.items ++ [.row s.appId rowId] := by
  unfold items withRows
  simp [RowDoc.items]

/-- An item follows what is there: the identifiers are those that the loader gives. -/
def Follows (T : EntityTable) (d : List AppDoc) : DocItem → Prop
  | .app appId appName => T.getAppIdByName appName = appId ∧ appId ≠ -1
  | .row appId rowId => ∃ s ∈ d.getLast?, s.appId = appId ∧ ∃ i : Int, 1 ≤ i ∧ rowId = getRowId appId i
  | .para q => ∃ s ∈ d.getLast?, q.paraId = s.nextId

theorem eq_concat_of_getLast? {d : List AppDoc} {s : AppDoc} (h : s ∈ d.getLast?) : ∃ e, d = e ++ [s] :=
  List.getLast?_eq_some_iff.1 h

/-- An item that follows is added to the items. -/
theorem docItems_addItem {T : EntityTable} {d : List AppDoc} {it : DocItem} (h : Follows T d it) :
    docItems (addItem d it) = docItems d ++ [it] := by
  cases it with
  | app appId appName =>
    rw [addItem, docItems_append, docItems_singleton]
    rfl
  | row appId rowId =>
    obtain ⟨s, hs, rfl, -⟩ := h
    obtain ⟨e, rfl⟩ := eq_concat_of_getLast? hs
    rw [addItem, changeLast_concat, docItems_append, docItems_append, docItems_singleton, docItems_singleton,
      AppDoc.items_withRow, List.append_assoc]
  | para q =>
    obtain ⟨s, hs, -⟩ := h
    obtain ⟨e, rfl⟩ := eq_concat_of_getLast? hs
    rw [addItem, changeLast_concat, docItems_append, docItems_append, docItems_singleton, docItems_singleton,
      AppDoc.items_withPara, List.append_assoc]

/-- The items, one after the other, lead from the contents `e` to the contents `d`. -/
def Builds (T : EntityTable) (e : List AppDoc) : List DocItem → List AppDoc → Prop
  | [], d => e = d
  | it :: its, d => Follows T e it ∧ Builds T (addItem e it) its d

theorem Builds.docItems_eq {T : EntityTable} {e d : List AppDoc} {its : List DocItem} (h : Builds T e its d) :
    docItems d = docItems e ++ its := by
  induction its generalizing e with
  | nil => rw [show e = d from h, List.append_nil]
  | cons it its ih => rw [ih h.2, docItems_addItem h.1, List.append_assoc, List.singleton_append]

end CodeFactory.Conf
