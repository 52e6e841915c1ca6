import CodeFactory.Oal.TcmRet
import CodeFactory.Tcm.StartUp

/-!
# The library of the other programs

`tcmAgent_api_set_value_by_index` and `tcmAgent_api_add_object_by_index` of `tcmAgentApi.c`, with which a program that changes the
configuration tells the agent. Every call of `tcmAgent_api_set_value` and `tcmAgent_api_add_object` sends a packet of its own, and the
queue takes it.
-/

namespace CodeFactory.Tcm

open Tr69 Oal

def maxLenOfValue : Nat := 640

/-- What a call returns, and the packets that it has sent. -/
structure Called where
  ret : TcmRet
  sent : List (List Msg)
  deriving DecidableEq, Repr

/-- A packet with one message. -/
def packet (m : Msg) : Outcome (List Msg) := ((⟨[], [], 0⟩ : Sender).put m).map Sender.buf

/-- `tcmAgent_api_set_value`, with the packet that it sends if the value has the type. -/
def tcmAgentApiSetValue (name value : Text) (type : ValueType) : Outcome (Option (List Msg)) :=
  match nodeValue Tr69.stringToNum type value with
  | some value => (packet (.setValue name value)).map some
  | none => .done none

def judgeValidityOfValue (parameter : MatchParameter) (value : Text) : Bool :=
  if parameter.type = .string then parameter.min ≤ value.length ∧ value.length ≤ parameter.max
  else
    match Tr69.stringToNum value with
    | some num => parameter.min ≤ num ∧ num ≤ parameter.max
    | none => false

variable (N : ParaNumbers)

/-! ## A value -/

/-- The entries whose value is on or off, as `tcmAgent_api_set_value_by_index` has them. -/
def isApiSwitch (appID : AppID) (parID : ParID) : Bool :=
  (appID = .app .dhcpd ∧ parID = .para .dhcpdStatus) ∨
  appID = .app .service ∨
  appID = .app .accessMode ∨
  appID = .app .upnpd ∨
  (appID = .app .tr069 ∧ parID = .para .tr069Informstatus) ∨
  (appID = .app .sdkd ∧ parID = .para .sdkdPkm) ∨
  (appID = .app .sdkd ∧ parID = .para .sdkdAlphaDelim) ∨
  (appID = .app .autocm ∧ parID = .para .autocmWmAutoCon) ∨
  (appID = .app .autocm ∧ parID = .para .autocmDhcpcdAutoStart) ∨
  (appID = .app .autocm ∧ parID = .para .autocmGwPingCheck) ∨
  (appID = .app .log ∧ parID = .para .logStatus) ∨
  (appID = .app .igmpProxy ∧ parID = .para .igmpStatus) ∨
  (appID = .app .wan ∧ parID = .para .mngStatus) ∨
  (appID = .app .autocm ∧ parID = .para .autocmMngDhcpcdAutoStart)

/-- `strcpy` to a buffer for a value. -/
def copyValue (value : Text) : Outcome Text := if value.length < maxLenOfValue then .done value else .undefined

/-- What is left in `valueTmp`, if anything is written there. -/
def valueTmp (appID : AppID) (parID : ParID) (value : Text) : Outcome (Option Text) :=
  if isApiSwitch appID parID then
    .done (if value = enable then some ['1'] else if value = disable then some ['0'] else none)
  else if appID = .app .route ∧ parID = .para .routeNexthoptype then
    if value = trueText then .done (some ['1'])
    else if value = falseText then .done (some ['0'])
    else (copyValue value).map some
  else if appID = .app .account ∧ parID = .para .accountCpassword then
    ((copyValue value).bind revertPSW).map some
  else (copyValue value).map some

/-- The value is sent, and after a value of the management server the end of the initialisation. -/
def setAndReturn (appID : AppID) (name value : Text) (type : ValueType) : Outcome Called :=
  (tcmAgentApiSetValue name value type).map fun
    | some p => ⟨.success, p :: if appID = .app .tr069 then [[.initEnd]] else []⟩
    | none => ⟨.failure, []⟩

/-- The loop of `tcmAgent_api_set_value_by_index` over the match table. A buffer that nothing was written to has no value. -/
def setLoop (appID : AppID) (rowID : Int) (parID : ParID) (valueTmp : Option Text) : List MatchParameter → Outcome Called
  | [] => .done ⟨.failure, []⟩
  | e :: es =>
    if rowID = -1 ∧ e.conflibRowID = .flagNoRow ∧ e.conflibAppID = appID ∧ e.conflibParID = parID then
      (follow valueTmp).bind fun value =>
        if judgeValidityOfValue e value then setAndReturn appID e.name value e.type
        else setLoop appID rowID parID valueTmp es
    else if rowID ≠ -1 ∧ e.conflibRowID = .flagTemplateRow ∧ e.conflibAppID = appID ∧ e.conflibParID = parID then
      (follow valueTmp).bind fun value =>
        if judgeValidityOfValue e value then
          match createParameterName e.name rowID with
          | none => .done ⟨.internalError, []⟩
          | some parName =>
            (tcmAgentApiSetValue parName value e.type).map fun
              | some p => ⟨.success, [p]⟩
              | none => ⟨.failure, []⟩
        else setLoop appID rowID parID valueTmp es
    else setLoop appID rowID parID valueTmp es

def tcmAgentApiSetValueByIndex (appID : AppID) (rowID : Int) (parID : ParID) (value : Text) : Outcome Called :=
  if appID = .flagAddDefaultObject ∨ rowID < -1 ∨ rowID = 0 ∨ N.ofParID parID < 0 then .done ⟨.invalidParameter, []⟩
  else (valueTmp appID parID value).bind fun valueTmp => setLoop appID rowID parID valueTmp gMatchParameters

/-! ## A row -/

/-- What is written to `valueConvert`, for a route. -/
def valueConvert (value : Nat → Text) : Outcome (List Text) :=
  if value 2 = trueText then Outcome.mapList (fun i => if i = 2 then .done ['1'] else copyValue (value i)) [0, 1, 2, 3, 4, 5]
  else if value 2 = falseText then Outcome.mapList (fun i => if i = 2 then .done ['0'] else copyValue (value i)) [0, 1, 2, 3, 4, 5]
  else .done []

/-- The value for a parameter; of `valueConvert` only what is written has a value. -/
def rowValue (appID : AppID) (converted : List Text) (value : Nat → Text) (i : Nat) : Outcome Text :=
  if appID = .app .route then follow converted[i]? else .done (value i)

/-- What `tcmAgent_api_add_object_by_index` comes to: it goes on with the packets that it has sent, or returns. -/
abbrev Adding := Outcome (Except Called (List (List Msg)))

/-- The object of the row. -/
def addInstance (appID : AppID) (rowID : Int) (e : MatchParameter) (sent : List (List Msg)) : Adding :=
  if e.conflibRowID = .flagTemplateRow ∧ e.conflibParID = .flagInstanceID ∧ e.conflibAppID = appID then
    match createInstanceName e.name rowID with
    | none => .done (.error ⟨.internalError, sent⟩)
    | some instanceName => (packet (.addObject instanceName)).map fun p => .ok (sent ++ [p])
  else .done (.ok sent)

def addValue (appID : AppID) (rowID : Int) (converted : List Text) (value : Nat → Text) (e : MatchParameter)
    (sent : List (List Msg)) : Adding :=
  if e.conflibRowID = .flagTemplateRow ∧ e.conflibAppID = appID ∧ e.conflibParID ≠ .flagInstanceID ∧
      e.conflibParID ≠ .flagStatusStyle then
    (rowValue appID converted value (N.ofParID e.conflibParID - 1).toNat).bind fun v =>
      (tcmAgentApiSetValueByIndex N appID rowID e.conflibParID v).map fun called =>
        if called.ret = .success then .ok (sent ++ called.sent) else .error ⟨.failure, sent ++ called.sent⟩
  else .done (.ok sent)

/-- A round of the loop over the match table. -/
def addEntry (appID : AppID) (rowID : Int) (converted : List Text) (value : Nat → Text) (e : MatchParameter)
    (sent : List (List Msg)) : Adding :=
  (addInstance appID rowID e sent).andThen (addValue N appID rowID converted value e)

def tcmAgentApiAddObjectByIndex (appID : AppID) (rowID : Int) (value : Nat → Text) : Outcome Called :=
  if appID = .flagAddDefaultObject ∨ rowID < 1 then .done ⟨.invalidParameter, []⟩
  else
    (if appID = .app .route then valueConvert value else .done []).bind fun converted =>
      (Outcome.forEach (addEntry N appID rowID converted value) gMatchParameters []).map fun
        | .error called => called
        | .ok sent => ⟨.success, sent⟩

end CodeFactory.Tcm
