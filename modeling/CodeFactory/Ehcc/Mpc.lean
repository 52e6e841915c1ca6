import CodeFactory.Ehcc.Server

/-!
# The message worker

`handleMsg` of `ehMpc.c` for the messages that change the state: the two registrations, the query for the account of an outdoor
device, the token, the keep-alives, and the open-door requests with their acknowledgements.
-/

namespace CodeFactory.Ehcc

/-- So many octets from a place on, as a string: what is in front of the first zero. -/
def text (octets : Nat → UInt8) (off len : Nat) : Text :=
  (((List.range len).map fun k => octets (off + k)).takeWhile (· ≠ 0)).map fun b => Char.ofNat b.toNat

/-- The user name of a registration; its length is in front of it. -/
def username (octets : Nat → UInt8) : Text := text octets 1 (octets 0).toNat

/-- Where the password of a registration begins with its length. -/
def passwordAt (octets : Nat → UInt8) : Nat := 1 + (octets 0).toNat

/-- The password of a registration. -/
def password (octets : Nat → UInt8) : Text := text octets (passwordAt octets + 1) (octets (passwordAt octets)).toNat

/-- Where the password of a registration ends. -/
def accountEnd (octets : Nat → UInt8) : Nat := passwordAt octets + 1 + (octets (passwordAt octets)).toNat

namespace Server

variable (K : Constants) (s : Server)

/-- The sub type that an indoor device registers with: seven inches where the number is none of an indoor device. -/
def idpSubType (octet : UInt8) : Nat :=
  let idpType : Int := octet.toNat
  if idpType < K.subtypeIdp7Inch - 2 ∨ idpType > K.subtypeSmp - 2 then K.subtypeIdp7Inch else octet.toNat + 2

/-- What is kept of a registration that succeeded with exactly the device's user name and password. -/
def enrol (m : CtrlBlock) (i : Nat) : Server :=
  match m.source with
  | some c => { s with registered := s.registered ++ [(c, i)] }
  | none => s

/-- The registration of a message names this device's account: `strcmp` of both. -/
def exactAccount (m : CtrlBlock) (device : DeviceInfo) : Bool :=
  username m.msg.octets = device.userName && password m.msg.octets = device.passWord

def processIDPToMFCBPair (m : CtrlBlock) : Server :=
  if m.connfd = 0 then s
  else
    match s.getDeviceByFd K m.connfd with
    | none => s
    | some (i, device) =>
      if m.msg.valueLen = 0 then s
      else if accountEnd m.msg.octets + 1 ≠ m.msg.valueLen then s
      else if exactAccount m device then
        ((s.updateStatusByDeviceIndex .connected i).updateSubTypeByDeviceIndex
          (idpSubType K (m.msg.octets (accountEnd m.msg.octets))) i).enrol m i
      else s

/-- `processODPToMFCBPair`: the account is compared without regard to case. -/
def processODPToMFCBPair (m : CtrlBlock) : Server :=
  match s.getDeviceByFd K m.connfd with
  | none => s
  | some (i, device) =>
    if sameNoCase (username m.msg.octets) device.userName = false then s
    else if sameNoCase (password m.msg.octets) device.passWord = false then s
    else if exactAccount m device then (s.updateStatusByDeviceIndex .connected i).enrol m i
    else s.updateStatusByDeviceIndex .connected i

/-- `checkODPTypeExist`: the door has an outdoor device already. -/
def checkODPTypeExist (doorID : Nat) : Bool :=
  (s.findUnit K fun device => device.type = .odp &&
    (device.status = .connected || device.status = .disconnected) &&
    ((device.subType = K.subtypeOdpFront && doorID = K.subtypeOdpFront) ||
      (device.subType = K.subtypeOdpBack && doorID = K.subtypeOdpBack))).isSome

/-- `processODPToMFCBQueryAccountInfo`, behind `checkODPTypeExist`. -/
def processODPToMFCBQueryAccountInfo (m : CtrlBlock) : Server :=
  let doorID := (m.msg.octets 0).toNat
  if s.checkODPTypeExist K doorID then s
  else if doorID = K.subtypeOdpFront ∨ doorID = K.subtypeOdpBack then
    match s.getDeviceByFd K m.connfd with
    | none => s
    | some (i, _) => s.updateSubTypeByDeviceIndex doorID i
  else s

/-- The token is granted to a connection that asked for it. -/
def grant (m : CtrlBlock) : Server :=
  { s with
    gTokenStatus := .busy
    gTokenOwern := m.connfd
    holders :=
      match m.source with
      | some c => if s.clientAt c.fd = some c ∧ c ∉ s.holders then s.holders ++ [c] else s.holders
      | none => s.holders }

/-- A connection that asks to release the token holds it no longer. -/
def handBack (m : CtrlBlock) : Server := { s with holders := s.holders.filter fun c => m.source ≠ some c }

/-- `processIDPToMFCBTokenOperation`; `PPI_OPERATE_TOKEN_REQUEST` is one and `PPI_OPERATE_TOKEN_RELEASE` two. -/
def processIDPToMFCBTokenOperation (m : CtrlBlock) : Server :=
  if m.msg.octets 0 = 1 then
    match s.gTokenStatus with
    | .free => s.grant m
    | .busy => s
  else if m.msg.octets 0 = 2 then
    match s.gTokenStatus with
    | .free => s.handBack m
    | .busy =>
      if s.gTokenOwern = m.connfd then { s.handBack m with gTokenStatus := .free, gTokenOwern := 0 } else s.handBack m
  else s

def updateKeepAliveStatus (connfd : Int) : Server :=
  match (List.range K.maxtableDevices).find? fun i => (s.keepAliveInfo i).connfd = connfd with
  | some i => { s with keepAliveInfo := Function.update s.keepAliveInfo i { s.keepAliveInfo i with flag := 0 } }
  | none =>
    match (List.range K.maxtableDevices).find? fun i => (s.keepAliveInfo i).connfd = -1 with
    | some i => { s with keepAliveInfo := Function.update s.keepAliveInfo i ⟨connfd, 0⟩ }
    | none => s

/-- `installTransMsgMap`: an entry behind the others, unless the descriptor is below one. -/
def installTransMsgMap (m : CtrlBlock) (door : Nat) : Server :=
  if m.connfd < 1 then s
  else { s with transMsgMapQueue := s.transMsgMapQueue ++ [⟨m.connfd, m.source, door⟩] }

/-- What is kept of an open-door request. -/
def request (m : CtrlBlock) (door : Nat) : Server := { s with requested := s.requested ++ [(m.source, door)] }

/-- `handleIDPToMFCBOpenDoor`. The entry is there before the door is looked at, and stays whatever becomes of the request: a wrong
door, a door without a connected outdoor device, and a command that cannot be sent leave the state as it is now. -/
def handleIDPToMFCBOpenDoor (m : CtrlBlock) : Server :=
  (s.request m (m.msg.octets 0).toNat).installTransMsgMap m (m.msg.octets 0).toNat

/-- `doTransMsgAct` with `sendOpenDoorAckToIdp`: the acknowledgement for a door goes to the descriptor of the first entry, and the
entry is taken out. What is sent to a descriptor that is no connection reaches nobody. -/
def doTransMsgAct (door : Nat) : Server :=
  match s.transMsgMapQueue with
  | [] => s
  | transMsg :: queue =>
    { s with
      transMsgMapQueue := queue
      relayed :=
        match s.clientAt transMsg.connfd with
        | some c => s.relayed ++ [(some c, door)]
        | none => s.relayed }

/-- `handleMFCBToODPOpenDoorAck`: the acknowledgement is for the door of the device that it came from. `written` says whether the door
has a row that its status can be written to. -/
def handleMFCBToODPOpenDoorAck (m : CtrlBlock) (written : Bool) : Server :=
  if m.connfd ≤ zeroFd then s
  else
    match s.getDeviceByFd K m.connfd with
    | none => s
    | some (_, device) => if written then s.doTransMsgAct device.subType else s

/-! ## What a handler changes -/

theorem enrol_eq (m : CtrlBlock) (i : Nat) : ∃ registered, s.enrol m i = { s with registered } := by
  unfold enrol
  split
  · exact ⟨_, rfl⟩
  · exact ⟨s.registered, rfl⟩

/-- The registration of an indoor device changes rows of the unit table only. -/
theorem processIDPToMFCBPair_eq (m : CtrlBlock) :
    ∃ units registered, s.processIDPToMFCBPair K m = { s with units, registered } := by
  unfold processIDPToMFCBPair
  split
  · exact ⟨s.units, s.registered, rfl⟩
  · split
    · exact ⟨s.units, s.registered, rfl⟩
    · split_ifs
      · exact ⟨s.units, s.registered, rfl⟩
      · exact ⟨s.units, s.registered, rfl⟩
      · obtain ⟨registered, h⟩ := enrol_eq _ m _
        exact ⟨_, registered, h⟩
      · exact ⟨s.units, s.registered, rfl⟩

/-- The registration of an outdoor device changes rows of the unit table only. -/
theorem processODPToMFCBPair_eq (m : CtrlBlock) :
    ∃ units registered, s.processODPToMFCBPair K m = { s with units, registered } := by
  unfold processODPToMFCBPair
  split
  · exact ⟨s.units, s.registered, rfl⟩
  · split_ifs
    · exact ⟨s.units, s.registered, rfl⟩
    · exact ⟨s.units, s.registered, rfl⟩
    · obtain ⟨registered, h⟩ := enrol_eq _ m _
      exact ⟨_, registered, h⟩
    · exact ⟨_, s.registered, rfl⟩

/-- The query for an account changes rows of the unit table only. -/
theorem processODPToMFCBQueryAccountInfo_eq (m : CtrlBlock) :
    ∃ units, s.processODPToMFCBQueryAccountInfo K m = { s with units } := by
  unfold processODPToMFCBQueryAccountInfo
  extract_lets doorID
  split_ifs
  · exact ⟨s.units, rfl⟩
  · split
    · exact ⟨s.units, rfl⟩
    · exact ⟨_, rfl⟩
  · exact ⟨s.units, rfl⟩

/-- A token operation changes the token only. -/
theorem processIDPToMFCBTokenOperation_eq (m : CtrlBlock) :
    ∃ gTokenStatus gTokenOwern holders,
      s.processIDPToMFCBTokenOperation m = { s with gTokenStatus, gTokenOwern, holders } := by
  unfold processIDPToMFCBTokenOperation
  split
  · split
    · exact ⟨_, _, _, rfl⟩
    · exact ⟨s.gTokenStatus, s.gTokenOwern, s.holders, rfl⟩
  · split
    · split
      · exact ⟨s.gTokenStatus, s.gTokenOwern, _, rfl⟩
      · split
        · exact ⟨_, _, _, rfl⟩
        · exact ⟨s.gTokenStatus, s.gTokenOwern, _, rfl⟩
    · exact ⟨s.gTokenStatus, s.gTokenOwern, s.holders, rfl⟩

theorem updateKeepAliveStatus_eq (connfd : Int) :
    ∃ keepAliveInfo, s.updateKeepAliveStatus K connfd = { s with keepAliveInfo } := by
  unfold updateKeepAliveStatus
  split
  · exact ⟨_, rfl⟩
  · split
    · exact ⟨_, rfl⟩
    · exact ⟨s.keepAliveInfo, rfl⟩

/-- Installing an entry changes the list of those that wait only. -/
theorem installTransMsgMap_eq (m : CtrlBlock) (door : Nat) :
    ∃ transMsgMapQueue, s.installTransMsgMap m door = { s with transMsgMapQueue } := by
  unfold installTransMsgMap
  split
  · exact ⟨s.transMsgMapQueue, rfl⟩
  · exact ⟨_, rfl⟩

theorem handleIDPToMFCBOpenDoor_eq (m : CtrlBlock) :
    ∃ transMsgMapQueue requested, s.handleIDPToMFCBOpenDoor m = { s with transMsgMapQueue, requested } := by
  obtain ⟨transMsgMapQueue, h⟩ := (s.request m (m.msg.octets 0).toNat).installTransMsgMap_eq m (m.msg.octets 0).toNat
  exact ⟨transMsgMapQueue, _, h⟩

/-- An acknowledgement changes the list of the requests that wait only. -/
theorem handleMFCBToODPOpenDoorAck_eq (m : CtrlBlock) (written : Bool) :
    ∃ transMsgMapQueue relayed,
      s.handleMFCBToODPOpenDoorAck K m written = { s with transMsgMapQueue, relayed } := by
  unfold handleMFCBToODPOpenDoorAck doTransMsgAct
  split_ifs
  · exact ⟨s.transMsgMapQueue, s.relayed, rfl⟩
  · split
    · exact ⟨s.transMsgMapQueue, s.relayed, rfl⟩
    · split
      · exact ⟨s.transMsgMapQueue, s.relayed, rfl⟩
      · exact ⟨_, _, rfl⟩
  · split
    · exact ⟨s.transMsgMapQueue, s.relayed, rfl⟩
    · exact ⟨s.transMsgMapQueue, s.relayed, rfl⟩

def handleMsg (m : CtrlBlock) (written : Bool) : Server :=
  match m.msg.type with
  | .idpToMfcbRegister => s.processIDPToMFCBPair K m
  | .odpToMfcbRegister => s.processODPToMFCBPair K m
  | .odpToMfcbQueryAccountInfo => s.processODPToMFCBQueryAccountInfo K m
  | .idpToMfcbTokenOperation => s.processIDPToMFCBTokenOperation m
  | .toMfcbKeepAlive => s.updateKeepAliveStatus K m.connfd
  | .idpToMfcbOpenDoor => s.handleIDPToMFCBOpenDoor m
  | .ackMfcbToOdpOpenDoor => s.handleMFCBToODPOpenDoorAck K m written
  | .other => s

/-- **What handling a message changes.** Neither the descriptors nor the table of devices, neither the queue nor the place where the
other threads are. -/
theorem handleMsg_eq (m : CtrlBlock) (written : Bool) :
    ∃ units keepAliveInfo gTokenStatus gTokenOwern transMsgMapQueue holders registered requested relayed,
      s.handleMsg K m written =
        { s with
          units, keepAliveInfo, gTokenStatus, gTokenOwern, transMsgMapQueue, holders, registered, requested, relayed } := by
  unfold handleMsg
  split
  · obtain ⟨_, _, h⟩ := s.processIDPToMFCBPair_eq K m
    exact ⟨_, _, _, _, _, _, _, _, _, h⟩
  · obtain ⟨_, _, h⟩ := s.processODPToMFCBPair_eq K m
    exact ⟨_, _, _, _, _, _, _, _, _, h⟩
  · obtain ⟨_, h⟩ := s.processODPToMFCBQueryAccountInfo_eq K m
    exact ⟨_, _, _, _, _, _, _, _, _, h⟩
  · obtain ⟨_, _, _, h⟩ := s.processIDPToMFCBTokenOperation_eq m
    exact ⟨_, _, _, _, _, _, _, _, _, h⟩
  · obtain ⟨_, h⟩ := s.updateKeepAliveStatus_eq K m.connfd
    exact ⟨_, _, _, _, _, _, _, _, _, h⟩
  · obtain ⟨_, _, h⟩ := s.handleIDPToMFCBOpenDoor_eq m
    exact ⟨_, _, _, _, _, _, _, _, _, h⟩
  · obtain ⟨_, _, h⟩ := s.handleMFCBToODPOpenDoorAck_eq K m written
    exact ⟨_, _, _, _, _, _, _, _, _, h⟩
  · exact ⟨_, _, _, _, _, _, _, _, _, rfl⟩

end Server

end CodeFactory.Ehcc
