import Mathlib.Algebra.Ring.Nat
import Mathlib.Data.List.Basic

/-!
# The applications and their tables

`tcmEntityInfo` of `tcm_eid.h`, the table `entityInfoArray` that the library looks up names and sizes in, and the identifiers
that `configapi.h` packs of it. The identifiers are taken as integers that do not wrap around.
-/

namespace CodeFactory.Conf

def maxNameLen : Nat := 240

def maxValueLen : Nat := 640

def getRowId (appId rowId : Int) : Int := appId * 65536 + rowId * 256

def getParaId (appId rowId paraId : Int) : Int := appId * 65536 + rowId * 256 + paraId

/-- `tcmEntityInfo`, as far as the library looks at it. The columns of a table are `tcmParamInfo`, up to the one without a
name. -/
structure TcmEntityInfo where
  eid : Nat
  name : List Char
  appMaxnum : Nat
  rowParas : Option (List (Nat × List Char))
  rowMaxnum : Nat
  rowEnd : Nat
  deriving DecidableEq, Repr

/-- `entityInfoArray`, up to the entry that ends it, and `ID_END`. -/
structure EntityTable where
  entities : List TcmEntityInfo
  idEnd : Nat
  /-- The entry that ends the table is the first one with such an identifier. -/
  below : ∀ e ∈ entities, e.eid < idEnd
  /-- `ID_END` comes after the identifier of an application. -/
  one_lt : 1 < idEnd

namespace EntityTable

def gMaxAppNum (T : EntityTable) : Nat := T.idEnd - 1

/-- What an application adds to `gMaxTabNum` in `init_Param`. -/
def tabNum (e : TcmEntityInfo) : Nat := if e.rowParas.isSome then e.rowMaxnum else 0

/-- What an application adds to `gMaxParaNum` in `init_Param`. -/
def paraNum (e : TcmEntityInfo) : Nat := (e.appMaxnum - 1) + (e.rowEnd - 1) * tabNum e

def gMaxTabNum (T : EntityTable) : Nat := (T.entities.map tabNum).sum

def gMaxParaNum (T : EntityTable) : Nat := (T.entities.map paraNum).sum

/-- The first entry with the identifier. -/
def findEntity (T : EntityTable) (appIndex : Int) : Option TcmEntityInfo := T.entities.find? fun e => (e.eid : Int) == appIndex

/-- `config_api_get_app_id_by_name`. -/
def getAppIdByName (T : EntityTable) (appName : List Char) : Int :=
  match T.entities.find? fun e => e.name == appName with
  | some e => e.eid
  | none => -1

/-- `config_api_get_para_name_by_id`. -/
def getParaNameById (T : EntityTable) (appIndex paraIndex : Int) : Option (List Char) :=
  match T.findEntity appIndex with
  | none => none
  | some e =>
    match e.rowParas with
    | none => none
    | some paras =>
      match paras.find? fun p => (p.1 : Int) == paraIndex with
      | none => none
      | some p => some (p.2.take (maxNameLen - 1))

/-- `config_api_app_exist_table`: the maximal number of rows and the end of the columns. -/
def appExistTable (T : EntityTable) (appIndex : Int) : Option (Nat × Nat) :=
  match T.findEntity appIndex with
  | none => none
  | some e => if e.rowParas.isSome then some (e.rowMaxnum, e.rowEnd) else none

/-- The name that `add_para_tail` looks up for an identifier: the application above the lowest 16 bits, the column in the
lowest 8. -/
def columnName (T : EntityTable) (id : Int) : Option (List Char) := T.getParaNameById (id / 65536) (id % 256)

/-- `ID_END` is the end of what an application index can be. -/
def ValidApp (T : EntityTable) (appIndex : Int) : Prop := 0 < appIndex ∧ appIndex < T.idEnd

instance (T : EntityTable) (appIndex : Int) : Decidable (T.ValidApp appIndex) := inferInstanceAs (Decidable (_ ∧ _))

end EntityTable

/-- The table of `eid.c`, with an entry that ends it: the array of `eid.c` has none, and a search for a name that it does not have
runs behind it. -/
def entityInfoArray : EntityTable where
  entities := [⟨1, "lan".toList, 3, none, 0, 0⟩, ⟨2, "dhcpd".toList, 6, none, 0, 0⟩]
  idEnd := 3
  below := by decide
  one_lt := by decide

end CodeFactory.Conf
