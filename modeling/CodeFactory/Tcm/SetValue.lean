import CodeFactory.Tcm.Agreement
import CodeFactory.Tcm.Password
import CodeFactory.Tcm.TemplateMatch

/-!
# A value that is set

`tcmCB_set_value` of `tcmAgent.c`: the match table is gone through for the entry of a name, and the value is written to the
configuration. What is done about a new value, by restarting applications and adding rules again, is not part of it.
-/

namespace CodeFactory.Tcm

open Tr69 Oal

/-- `ApplyStatus`, as far as it is returned. -/
inductive ApplyStatus where
  | applyError | applied
  deriving DecidableEq, Repr

/-- What is written with `config_api_write_parameter`, or with `config_api_write_table_parameter` if there is a row. -/
structure Write where
  appID : AppID
  rowID : Option Int
  parID : Int
  value : Text
  deriving DecidableEq, Repr

/-- What a call returns, and what it has written. -/
structure SetDone where
  status : ApplyStatus
  written : List Write
  deriving DecidableEq, Repr

/-- The configuration that a call finds, what it takes, and what stands in the array for a password before. -/
structure Surroundings where
  conf : Configuration
  takes : Write → Bool
  passwd : List Int

def getInstanceidMatchRowId (tr069Name name : Text) : Int :=
  match Conf.strchr '.' (name.drop tr069Name.length) with
  | none => -1
  | some (rowIDStr, _) => if 0 < rowIDStr.length ∧ rowIDStr.length < 3 then (stringToNum rowIDStr).getD (-1) else -1

variable (N : ParaNumbers) (w : Surroundings)

/-- The entries whose value is on or off, as `tcmCB_set_value` has them. -/
def isSetSwitch (appID : AppID) (parID : ParID) : Bool :=
  (appID = .app .dhcpd ∧ N.ofParID parID = 1) ∨
  appID = .app .service ∨
  appID = .app .accessMode ∨
  appID = .app .upnpd ∨
  (appID = .app .tr069 ∧ parID = .para .tr069Informstatus) ∨
  (appID = .app .sdkd ∧ parID = .para .sdkdPkm) ∨
  (appID = .app .sdkd ∧ parID = .para .sdkdAlphaDelim) ∨
  (appID = .app .autocm ∧ parID = .para .autocmWmAutoCon) ∨
  (appID = .app .autocm ∧ parID = .para .autocmDhcpcdAutoStart) ∨
  (appID = .app .autocm ∧ parID = .para .autocmGwPingCheck) ∨
  (appID = .app .igmpProxy ∧ parID = .para .igmpStatus) ∨
  (appID = .app .log ∧ parID = .para .logStatus) ∨
  (appID = .app .wan ∧ parID = .para .mngStatus) ∨
  (appID = .app .autocm ∧ parID = .para .autocmMngDhcpcdAutoStart)

/-- What is copied to `result` for a one or a zero; for another value nothing is. -/
def wordFor (one zero value : Text) : Option Text := if value = ['1'] then some one else if value = ['0'] then some zero else none

/-- What is in `result` for a value outside of the tables, if anything was copied to it. -/
def plainResult (e : MatchParameter) (value : Text) : Outcome (Option Text) :=
  if isSetSwitch N e.conflibAppID e.conflibParID then .done (wordFor enable disable value) else (copyValue value).map some

/-- What is in `result` for a value of a row, if anything was copied to it. -/
def columnResult (e : MatchParameter) (value : Text) : Outcome (Option Text) :=
  -- a zero is stored as the same word as a one
  if e.conflibAppID = .app .route ∧ N.ofParID e.conflibParID = 3 then .done (wordFor trueText trueText value)
  else if e.conflibAppID = .app .account ∧ e.conflibParID = .para .accountCpassword then (convertPassword value w.passwd).map some
  else (copyValue value).map some

/-- Write what is in `result`. -/
def writeResult (e : MatchParameter) (rowID : Option Int) (result : Option Text) : Outcome SetDone :=
  (follow result).map fun value =>
    if w.takes ⟨e.conflibAppID, rowID, N.ofParID e.conflibParID, value⟩ then
      ⟨.applied, [⟨e.conflibAppID, rowID, N.ofParID e.conflibParID, value⟩]⟩
    else ⟨.applyError, []⟩

/-- A value outside of the tables. One of the management server is read before. -/
def setPlain (e : MatchParameter) (value : Text) : Outcome SetDone :=
  (plainResult N e value).bind fun result =>
    if e.conflibAppID = .app .tr069 ∧ w.conf.readParameter e.conflibAppID (N.ofParID e.conflibParID) = none then
      .done ⟨.applyError, []⟩
    else writeResult N w e none result

def setColumn (e : MatchParameter) (rowID : Int) (value : Text) : Outcome SetDone :=
  (columnResult N w e value).bind fun result => writeResult N w e (some rowID) result

/-- A round of the loop of `tcmCB_set_value`, which keeps the row of the last object that is part of the name. -/
def setEntry (name value : Text) (e : MatchParameter) (rowID : Int) : Outcome (Except SetDone Int) :=
  if e.IsPlain ∧ e.name = name then (setPlain N w e value).map .error
  else if e.IsInstance ∧ Http.mentions name e.name then
    if getInstanceidMatchRowId e.name name = -1 then .done (.error ⟨.applyError, []⟩)
    else .done (.ok (getInstanceidMatchRowId e.name name))
  else if e.conflibRowID = .flagTemplateRow ∧ ¬e.IsInstance ∧ templateMatchCompare e.name name ∧ N.ofParID e.conflibParID ≠ 0 ∧
      rowID ≠ 0 then
    (setColumn N w e rowID value).map .error
  else .done (.ok rowID)

def tcmCBSetValue (name value : Text) : Outcome SetDone :=
  (Outcome.forEach (setEntry N w name value) gMatchParameters 0).map fun
    | .error called => called
    | .ok _ => ⟨.applyError, []⟩

end CodeFactory.Tcm
