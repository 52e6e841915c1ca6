import CodeFactory.Conf.Table
import CodeFactory.Lib.ChainLoop

/-!
# The cache of the configuration library

`configapi.c`: three pools of nodes in shared memory, linked by their offsets, and the calls that read and change them. An offset
is the number of a node in its pool here, and the offset zero is none. A loop over nodes has a bound on its rounds, one more than
the nodes of the pool.
-/

namespace CodeFactory.Conf

/-- `para_node_t`. -/
structure ParaNode where
  paraId : Int
  paraName : List Char
  paraVal : List Char
  next : Option Nat
  deriving DecidableEq, Repr

/-- `row_node_t`. -/
structure RowNode where
  rowId : Int
  para : Option Nat
  next : Option Nat
  deriving DecidableEq, Repr

/-- `app_node_t`. -/
structure AppNode where
  appId : Int
  appName : List Char
  para : Option Nat
  row : Option Nat
  next : Option Nat
  deriving DecidableEq, Repr

/-- The nodes of the shared memory. -/
structure Cache where
  app : Nat → AppNode
  row : Nat → RowNode
  para : Nat → ParaNode

/-- The field that a pointer to a link of a row points to: `row` of an application or `next` of a row. -/
inductive RowLink where
  | appRow (a : Nat)
  | rowNext (r : Nat)
  deriving DecidableEq, Repr

/-- The field that a pointer to a link of a parameter points to: `para` of an application or a row, or `next` of a
parameter. -/
inductive ParaLink where
  | appPara (a : Nat)
  | rowPara (r : Nat)
  | paraNext (p : Nat)
  deriving DecidableEq, Repr

namespace Cache

/-- Change an application node. -/
def setApp (c : Cache) (a : Nat) (node : AppNode) : Cache := { c with app := Function.update c.app a node }

/-- Change a row node. -/
def setRow (c : Cache) (r : Nat) (node : RowNode) : Cache := { c with row := Function.update c.row r node }

/-- Change a parameter node. -/
def setPara (c : Cache) (p : Nat) (node : ParaNode) : Cache := { c with para := Function.update c.para p node }

/-- `*next = row;` -/
def setRowLink (c : Cache) (link : RowLink) (row : Option Nat) : Cache :=
  match link with
  | .appRow a => c.setApp a { c.app a with row := row }
  | .rowNext r => c.setRow r { c.row r with next := row }

/-- `*next = para;` -/
def setParaLink (c : Cache) (link : ParaLink) (para : Option Nat) : Cache :=
  match link with
  | .appPara a => c.setApp a { c.app a with para := para }
  | .rowPara r => c.setRow r { c.row r with para := para }
  | .paraNext p => c.setPara p { c.para p with next := para }

/-- The `next` links of the applications. -/
def appNext (c : Cache) (a : Nat) : Option Nat := (c.app a).next

/-- The `next` links of the rows. -/
def rowNext (c : Cache) (r : Nat) : Option Nat := (c.row r).next

/-- The `next` links of the parameters. -/
def paraNext (c : Cache) (p : Nat) : Option Nat := (c.para p).next

/-- `init_node`, of memory that was cleared. -/
def initNode (T : EntityTable) : Cache where
  app a := ⟨-1, [], none, none, if a + 1 < T.gMaxAppNum then some (a + 1) else none⟩
  row _ := ⟨-1, none, none⟩
  para _ := ⟨-1, [], [], none⟩

variable (T : EntityTable)

/-- `find_free_node`, of the rows: the first node that is not in use, with its links cleared. -/
def findFreeRow (c : Cache) : Option (Nat × Cache) :=
  ((List.range T.gMaxTabNum).find? fun r => (c.row r).rowId == -1).map fun r =>
    (r, c.setRow r { c.row r with next := none, para := none })

/-- `find_free_node`, of the parameters: the first node that is not in use, with its name, value and link cleared. -/
def findFreePara (c : Cache) : Option (Nat × Cache) :=
  ((List.range T.gMaxParaNum).find? fun p => (c.para p).paraId == -1).map fun p =>
    (p, c.setPara p { c.para p with paraName := [], paraVal := [], next := none })

def addParaTail (c : Cache) (next : ParaLink) (id : Int) (val : List Char) : Option Nat × Cache :=
  match c.findFreePara T with
  | none => (none, c)
  | some (newPara, c) =>
    match T.columnName id with
    | none => (none, c)
    | some name =>
      (some newPara, (c.setPara newPara ⟨id, name, val.take (maxValueLen - 1), none⟩).setParaLink next (some newPara))

def addRowTail (c : Cache) (next : RowLink) (rowId : Int) : Option Nat × Cache :=
  match c.findFreeRow T with
  | none => (none, c)
  | some (newRow, c) => (some newRow, (c.setRow newRow ⟨rowId, none, none⟩).setRowLink next (some newRow))

/-- The loop of every call that looks for the application. -/
def findApp (c : Cache) (appIndex : Int) : Outcome (Option Nat) :=
  findFrom c.appNext (fun a => (c.app a).appId != -1) (fun a => (c.app a).appId == appIndex) (T.gMaxAppNum + 1) (some 0)

/-- The loop that looks for a row of an application. -/
def findRow (c : Cache) (a : Nat) (rowId : Int) : Outcome (Option Nat) :=
  findFrom c.rowNext (fun r => (c.row r).rowId != -1) (fun r => (c.row r).rowId == rowId) (T.gMaxTabNum + 1) (c.app a).row

/-- The loop that looks for a parameter from a pointer on. -/
def findPara (c : Cache) (p : Option Nat) (paraId : Int) : Outcome (Option Nat) :=
  findFrom c.paraNext (fun p => (c.para p).paraId != -1) (fun p => (c.para p).paraId == paraId) (T.gMaxParaNum + 1) p

/-- `strncpy ( tmp_para->para_val, val, MAX_VALUE_LEN - 1 );` -/
def writeVal (c : Cache) (p : Nat) (val : List Char) : Cache :=
  c.setPara p { c.para p with paraVal := val.take (maxValueLen - 1) }

/-- `config_api_read_parameter`: the value that is copied to the result, if it succeeds. -/
def configApiReadParameter (c : Cache) (appIndex paraIndex : Int) : Outcome (Option (List Char)) :=
  if T.ValidApp appIndex then
    (c.findApp T appIndex).bind fun
    | none => .done none
    | some a => (c.findPara T (c.app a).para (getParaId appIndex 0 paraIndex)).map fun p => p.map fun p => (c.para p).paraVal
  else .done none

def configApiWriteParameter (c : Cache) (appIndex paraIndex : Int) (val : List Char) : Outcome (Int × Cache) :=
  if T.ValidApp appIndex then
    (c.findApp T appIndex).bind fun
    | none => .done (-1, c)
    | some a =>
      (c.findPara T (c.app a).para (getParaId appIndex 0 paraIndex)).bind fun
      | none => .done (-1, c)
      | some p => .done (0, c.writeVal p val)
  else .done (-1, c)

def configApiWriteTableParameter (c : Cache) (appIndex rowIndex paraIndex : Int) (val : List Char) : Outcome (Int × Cache) :=
  if T.ValidApp appIndex then
    (c.findApp T appIndex).bind fun
    | none => .done (-1, c)
    | some a =>
      (c.findRow T a (getRowId appIndex rowIndex)).bind fun
      | none => .done (-1, c)
      | some r =>
        (c.findPara T (c.row r).para (getParaId appIndex rowIndex paraIndex)).bind fun
        | none => .done (-1, c)
        | some p => .done (0, c.writeVal p val)
  else .done (-1, c)

/-- How the search for the place of a new row is left: at a row with the same identifier, or in front of a row. -/
inductive RowSearch where
  | taken
  | before (pre : Option Nat) (index : Int) (last : Nat)
  deriving DecidableEq, Repr

/-- The body of the search for the place of a row with an index: the rows before it have smaller identifiers. -/
def searchIndex (c : Cache) (appIndex rowIndex : Int) (pre : Option Nat) (r : Nat) : Except RowSearch (Option Nat) :=
  if (c.row r).rowId < getRowId appIndex rowIndex then .ok (some r)
  else if (c.row r).rowId = getRowId appIndex rowIndex then .error .taken
  else .error (.before pre rowIndex r)

/-- The body of the search for the smallest index that no row has. -/
def searchGap (c : Cache) (appIndex : Int) (s : Option Nat × Int) (r : Nat) : Except RowSearch (Option Nat × Int) :=
  if (c.row r).rowId = getRowId appIndex s.2 then .ok (some r, s.2 + 1) else .error (.before s.1 s.2 r)

/-- The place of a new row: the row before it, its index, and the row after it; none when there is a row with the index. -/
def rowPlace (c : Cache) (appIndex : Int) (a : Nat) (rowIndex : Int) : Outcome (Option (Option Nat × Int × Option Nat)) :=
  if 0 < rowIndex then
    (loopFrom c.rowNext (fun r => (c.row r).rowId != -1) (c.searchIndex appIndex rowIndex) (T.gMaxTabNum + 1) (c.app a).row
      none).map fun
    | .ok pre => some (pre, rowIndex, none)
    | .error .taken => none
    | .error (.before pre index last) => some (pre, index, some last)
  else
    (loopFrom c.rowNext (fun r => (c.row r).rowId != -1) (c.searchGap appIndex) (T.gMaxTabNum + 1) (c.app a).row
      (none, 1)).map fun
    | .ok (pre, index) => some (pre, index, none)
    | .error .taken => none
    | .error (.before pre index last) => some (pre, index, some last)

/-- The field that the new row is linked to. -/
def placeLink (a : Nat) : Option Nat → RowLink
  | some pre => .rowNext pre
  | none => .appRow a

/-- `if ( last_row ) tmp_row->next = last_row;` -/
def linkLast (c : Cache) (r : Nat) (last : Option Nat) : Cache :=
  if last.isSome then c.setRowLink (.rowNext r) last else c

/-- The loop of `config_api_add_table_row` over the columns from one on, `n` of them: whether all of them were added. -/
def addColumns (c : Cache) (next : ParaLink) (appIndex rowIndex : Int) (val : Nat → Option (List Char)) :
    Nat → Nat → Bool × Cache
  | 0, _ => (true, c)
  | n + 1, i =>
    match c.addParaTail T next (getParaId appIndex rowIndex (i + 1)) ((val i).getD []) with
    | (none, c) => (false, c)
    | (some p, c) => c.addColumns (.paraNext p) appIndex rowIndex val n (i + 1)

/-- A row and its columns are added at a place that was found. -/
def addRowAt (c : Cache) (appIndex : Int) (a : Nat) (rowEnd : Nat) (val : Nat → Option (List Char))
    (place : Option Nat × Int × Option Nat) : Int × Cache :=
  match c.addRowTail T (placeLink a place.1) (getRowId appIndex place.2.1) with
  | (none, c) => (-1, c)
  | (some r, c) =>
    match (c.linkLast r place.2.2).addColumns T (.rowPara r) appIndex place.2.1 val (rowEnd - 1) 0 with
    | (true, c) => (0, c)
    | (false, c) => (-1, c)

def configApiAddTableRow (c : Cache) (appIndex rowIndex : Int) (val : Nat → Option (List Char)) : Outcome (Int × Cache) :=
  if T.ValidApp appIndex ∧ (val 0).isSome then
    (c.findApp T appIndex).bind fun
    | none => .done (-1, c)
    | some a =>
      match T.appExistTable appIndex with
      | none => .done (-1, c)
      | some (rowMaxnum, rowEnd) =>
        if (rowMaxnum : Int) < rowIndex ∨ rowIndex < 0 then .done (-1, c)
        else
          (c.rowPlace T appIndex a rowIndex).map fun
          | none => (-1, c)
          | some place => c.addRowAt T appIndex a rowEnd val place
  else .done (-1, c)

/-- The loop of `config_api_delete_table_row` over the parameters of the row. -/
def freeParas (c : Cache) : Nat → Option Nat → Outcome Cache
  | 0, _ => .outOfFuel
  | _ + 1, none => .done c
  | fuel + 1, some p =>
    if (c.para p).paraId = -1 then .done c
    else (c.setPara p ⟨-1, [], [], (c.para p).next⟩).freeParas fuel (c.para p).next

/-- How the search for the row to be deleted is left: in front of a row with a greater identifier, or at the row. -/
inductive DeleteSearch where
  | missing
  | found (prev : Option Nat) (r : Nat)
  deriving DecidableEq, Repr

/-- The body of the search for the row to be deleted. -/
def searchDelete (c : Cache) (appIndex rowIndex : Int) (prev : Option Nat) (r : Nat) : Except DeleteSearch (Option Nat) :=
  if (c.row r).rowId < getRowId appIndex rowIndex then .ok (some r)
  else if getRowId appIndex rowIndex < (c.row r).rowId then .error .missing
  else .error (.found prev r)

/-- A row that was found is cleaned up and unlinked. -/
def deleteRow (c : Cache) (a : Nat) (prev : Option Nat) (r : Nat) : Outcome Cache :=
  (c.freeParas (T.gMaxParaNum + 1) (c.row r).para).map fun c' =>
    (c'.setRow r ⟨-1, none, none⟩).setRowLink (placeLink a prev) (c.row r).next

def configApiDeleteTableRow (c : Cache) (appIndex rowIndex : Int) : Outcome (Int × Cache) :=
  if T.ValidApp appIndex then
    (c.findApp T appIndex).bind fun
    | none => .done (-1, c)
    | some a =>
      (loopFrom c.rowNext (fun r => (c.row r).rowId != -1) (c.searchDelete appIndex rowIndex) (T.gMaxTabNum + 1) (c.app a).row
        none).bind fun
      | .ok _ => .done (-1, c)
      | .error .missing => .done (-1, c)
      | .error (.found prev r) => (c.deleteRow T a prev r).map fun c => (0, c)
  else .done (-1, c)

end Cache

end CodeFactory.Conf
